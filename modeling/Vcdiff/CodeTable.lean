import Vcdiff.Fault
import Vcdiff.Bytes

/-!
Instructions, and the code table that maps an opcode to two of them. A table has a serialised form
of six columns of 256 bytes; `ofBytes` accepts such bytes when every instruction is known and every
COPY uses a mode that the table's address caches have.
-/

namespace Vcdiff

inductive Instruction.Kind where
  | noop
  | add
  | run
  | copy
  deriving DecidableEq

def Instruction.Kind.code : Instruction.Kind → UInt8
  | .noop => 0
  | .add => 1
  | .run => 2
  | .copy => 3

def Instruction.Kind.ofCode? (code : UInt8) : Option Instruction.Kind :=
  if code = 0 then some .noop
  else if code = 1 then some .add
  else if code = 2 then some .run
  else if code = 3 then some .copy
  else none

@[simp] theorem Instruction.Kind.ofCode?_code (k : Instruction.Kind) : ofCode? k.code = some k := by
  cases k <;> rfl

theorem Instruction.Kind.code_of_ofCode? {code : UInt8} {k : Instruction.Kind}
    (h : ofCode? code = some k) : k.code = code := by
  unfold ofCode? at h
  repeat (split at h; · cases h; subst_vars; rfl)
  cases h

/-- One half of a table entry. A size of zero means that the size follows the opcode; the mode
counts only for a COPY. -/
structure Instruction where
  kind : Instruction.Kind
  size : UInt8
  mode : UInt8
  deriving DecidableEq

namespace Instruction

def noop : Instruction := ⟨.noop, 0, 0⟩
def add (size : UInt8) : Instruction := ⟨.add, size, 0⟩
def run : Instruction := ⟨.run, 0, 0⟩
def copy (size mode : UInt8) : Instruction := ⟨.copy, size, mode⟩

end Instruction

/-- The two instructions of an opcode; an opcode for one instruction has a NOOP as its second. -/
abbrev Entry := Instruction × Instruction

structure CodeTable where
  entries : Vector Entry 256
  nearSize : Nat
  sameSize : Nat
  deriving DecidableEq

namespace CodeTable

/-- Bytes in the serialised form of a table. -/
def byteSize : Nat := 1536

def defaultNearSize : Nat := 4

def defaultSameSize : Nat := 3

/-- The numbers from `first` to `last` as bytes. -/
def upTo (first last : Nat) : List UInt8 := (List.range' first (last + 1 - first)).map UInt8.ofNat

def defaultEntries : List Entry :=
  let one (i : Instruction) : Entry := (i, .noop)
  one .run :: (upTo 0 17).map (fun size => one (.add size))
    ++ (upTo 0 8).flatMap (fun mode => (0 :: upTo 4 18).map fun size => one (.copy size mode))
    ++ (upTo 0 5).flatMap (fun mode => (upTo 1 4).flatMap fun added =>
        (upTo 4 6).map fun copied => (.add added, .copy copied mode))
    ++ (upTo 6 8).flatMap (fun mode => (upTo 1 4).map fun added => (.add added, .copy 4 mode))
    ++ (upTo 0 8).map (fun mode => (.copy 4 mode, .add 1))

theorem length_defaultEntries : defaultEntries.length = 256 := by decide +kernel

/-- The table of a delta that declares none. -/
def default : CodeTable where
  entries := ⟨defaultEntries.toArray, length_defaultEntries⟩
  nearSize := defaultNearSize
  sameSize := defaultSameSize

variable (t : CodeTable)

/-- How many address modes the table's caches have. -/
def modeCount : Nat := 2 + t.nearSize + t.sameSize

def entry (opcode : UInt8) : Entry := t.entries.get ⟨opcode.toNat, opcode.toNat_lt⟩

def column (f : Entry → UInt8) : Bytes := t.entries.toList.map f

@[simp] theorem length_column (f : Entry → UInt8) : (t.column f).length = 256 := by
  simp [column]

def toBytes : Bytes :=
  t.column (·.1.kind.code) ++ t.column (·.2.kind.code)
    ++ t.column (·.1.size) ++ t.column (·.2.size)
    ++ t.column (·.1.mode) ++ t.column (·.2.mode)

@[simp] theorem length_toBytes : t.toBytes.length = byteSize := by
  simp [toBytes, byteSize]

/-- Reads the first or second instruction of an opcode from its three columns. -/
def readHalf (bytes : Vector UInt8 1536) (modeCount : Nat) (half : Fin 2) (opcode : Fin 256) :
    Except Fault Instruction :=
  have := half.isLt
  have := opcode.isLt
  let code := bytes[half.val * 256 + opcode.val]
  let size := bytes[(2 + half.val) * 256 + opcode.val]
  let mode := bytes[(4 + half.val) * 256 + opcode.val]
  match Instruction.Kind.ofCode? code with
  | none => .error (.unknownInstruction code opcode)
  | some kind =>
    if kind = .copy ∧ modeCount ≤ mode.toNat then
      .error (.modeOutsideTable mode opcode modeCount)
    else .ok ⟨kind, size, mode⟩

def readEntry (bytes : Vector UInt8 1536) (modeCount : Nat) (opcode : Fin 256) :
    Except Fault Entry := do
  let first ← readHalf bytes modeCount 0 opcode
  let second ← readHalf bytes modeCount 1 opcode
  return (first, second)

/-- The table with the given serialised form and cache sizes. -/
def ofBytes (bytes : Bytes) (nearSize sameSize : Nat) : Except Fault CodeTable :=
  if h : bytes.toArray.size = 1536 then
    let modeCount := 2 + nearSize + sameSize
    if 256 < modeCount then .error (.tooManyModes nearSize sameSize)
    else do
      let entries ← Vector.ofFnM (readEntry ⟨bytes.toArray, h⟩ modeCount)
      return ⟨entries, nearSize, sameSize⟩
  else .error (.tableSize bytes.length)

end CodeTable

end Vcdiff
