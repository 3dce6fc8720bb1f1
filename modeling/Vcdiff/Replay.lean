import Vcdiff.AddressCache
import Vcdiff.Checksum
import Vcdiff.CodeTable
import Vcdiff.Target

/-!
Replaying the instructions of one window. Each step takes an opcode from the instructions section
and executes the two instructions that the code table has for it; when the section is used up, the
target must have the length and the checksum that the window declares. A fault ends the replay and
leaves the progress as it was when the fault arose.
-/

namespace Vcdiff

/-- What a window asks for, apart from its sections. -/
structure Task where
  table : CodeTable
  source : Array UInt8
  targetLength : Nat
  checksum : Option Nat

inductive Phase where
  | running
  | done
  | faulted
  deriving DecidableEq

/-- How far a replay has come. -/
structure Progress where
  data : Cursor
  instructions : Cursor
  addresses : Cursor
  cache : AddressCache
  target : Array UInt8
  phase : Phase
  deriving DecidableEq

/-- A replay at its start, with a cleared cache. -/
def Progress.start (data instructions addresses : Cursor) (cache : AddressCache) : Progress :=
  ⟨data, instructions, addresses, cache.clear, #[], .running⟩

namespace Replay

/-- An action on the progress of a replay, which keeps its effects also when it fails. -/
abbrev Action (α : Type) := ExceptT Fault (StateM Progress) α

variable {α : Type} (task : Task)

def readData (read : Cursor.Read α) : Action α := fun p =>
  match read p.data with
  | .ok (a, data) => (.ok a, { p with data })
  | .error fault => (.error fault, p)

def readInstructions (read : Cursor.Read α) : Action α := fun p =>
  match read p.instructions with
  | .ok (a, instructions) => (.ok a, { p with instructions })
  | .error fault => (.error fault, p)

def append (bytes : Bytes) : Action Unit := fun p =>
  (.ok (), { p with target := p.target ++ bytes.toArray })

def fill (byte : UInt8) (n : Nat) : Action Unit := fun p =>
  (.ok (), { p with target := Target.fill p.target byte n })

/-- Copies `size` bytes from the next address, which is written in the given mode. -/
def copy (mode size : Nat) : Action Unit := fun p =>
  let here := task.source.size + p.target.size
  match p.cache.decode here mode p.addresses with
  | (.ok address, cache, addresses) =>
    (.ok (), { p with cache, addresses, target := Target.copy task.source p.target address size })
  | (.error fault, cache, addresses) => (.error fault, { p with cache, addresses })

/-- The number of bytes that an instruction is for. -/
def operandSize (i : Instruction) : Action Nat :=
  if i.size = 0 then readInstructions (Cursor.readVarint Varint.maxValue)
  else pure i.size.toNat

/-- Refuses to write past the declared length of the target. -/
def checkRoom (size : Nat) : Action Unit := fun p =>
  if task.targetLength - p.target.size < size then
    (.error (.overrun size p.target.size task.targetLength), p)
  else (.ok (), p)

def execute (i : Instruction) : Action Unit :=
  if i.kind = .noop then pure ()
  else do
    let size ← operandSize i
    checkRoom task size
    match i.kind with
    | .noop => pure ()
    | .add => append (← readData (Cursor.readBytes size))
    | .run => fill (← readData Cursor.readByte) size
    | .copy => copy task i.mode.toNat size

def executeEntry (entry : Entry) : Action Unit := do
  execute task entry.1
  execute task entry.2

/-- Compares a target with what the window declares. -/
def verify (target : Array UInt8) : Except Fault Unit :=
  if target.size ≠ task.targetLength then
    .error (.targetShort target.size task.targetLength)
  else
    match task.checksum with
    | none => .ok ()
    | some expected =>
      let actual := Checksum.adler32 Checksum.initial target.toList
      if actual ≠ expected then .error (.checksumMismatch expected actual) else .ok ()

/-- Executes one opcode, or ends the replay when there is none; says whether there may be more. -/
def step (p : Progress) : Except Fault Bool × Progress :=
  match p.phase with
  | .done => (.error .replayDone, p)
  | .faulted => (.error .replayFaulted, p)
  | .running =>
    match Cursor.readByte p.instructions with
    | .error _ =>
      match verify task p.target with
      | .ok () => (.ok false, { p with phase := .done })
      | .error fault => (.error fault, { p with phase := .faulted })
    | .ok (opcode, instructions) =>
      match (executeEntry task (task.table.entry opcode)).run.run { p with instructions } with
      | (.ok (), p) => (.ok true, p)
      | (.error fault, p) => (.error fault, { p with phase := .faulted })

theorem bind_apply {β : Type} (x : Action α) (f : α → Action β) (p : Progress) :
    (x >>= f).run.run p = match x.run.run p with
      | (.ok a, q) => (f a).run.run q
      | (.error fault, q) => (.error fault, q) := by
  show (match x p with | (r, q) => (ExceptT.bindCont f r) q) =
    match x p with
    | (.ok a, q) => (f a).run.run q
    | (.error fault, q) => (.error fault, q)
  rcases x p with ⟨_ | _, q⟩ <;> rfl

/-- The action relates every progress that it begins with to the one that it leaves. -/
def Keeps (R : Progress → Progress → Prop) (x : Action α) : Prop := ∀ p, R p (x.run.run p).2

section Keeps

variable {R : Progress → Progress → Prop} {β : Type}

theorem keeps_pure (refl : ∀ p, R p p) (a : α) : Keeps R (pure a : Action α) := refl

theorem keeps_bind (trans : ∀ p q r, R p q → R q r → R p r) {x : Action α}
    {f : α → Action β} (hx : Keeps R x) (hf : ∀ a, Keeps R (f a)) : Keeps R (x >>= f) := by
  intro p
  rw [bind_apply]
  have h := hx p
  rcases hp : x.run.run p with ⟨_ | a, q⟩
  · simpa [hp] using h
  · exact trans _ _ _ (by simpa [hp] using h) (hf a q)

end Keeps

/-- No more of the instructions section is left than before. -/
def Onward (p q : Progress) : Prop := q.instructions.rest.length ≤ p.instructions.rest.length

theorem Onward.refl (p : Progress) : Onward p p := Nat.le_refl _

theorem Onward.trans (p q r : Progress) (h : Onward p q) (k : Onward q r) : Onward p r :=
  Nat.le_trans k h

theorem keeps_operandSize {R : Progress → Progress → Prop} (refl : ∀ p, R p p)
    (hvarint : Keeps R (readInstructions (Cursor.readVarint Varint.maxValue))) (i : Instruction) :
    Keeps R (operandSize i) := by
  unfold operandSize
  split
  · exact hvarint
  · exact keeps_pure refl _

/-- What the parts of an instruction keep, the instruction keeps. -/
theorem keeps_execute {R : Progress → Progress → Prop} (refl : ∀ p, R p p)
    (trans : ∀ p q r, R p q → R q r → R p r)
    (hvarint : Keeps R (readInstructions (Cursor.readVarint Varint.maxValue)))
    (hbytes : ∀ n, Keeps R (readData (Cursor.readBytes n)))
    (hbyte : Keeps R (readData Cursor.readByte)) (happend : ∀ bytes, Keeps R (append bytes))
    (hfill : ∀ byte n, Keeps R (fill byte n)) (hcopy : ∀ mode n, Keeps R (copy task mode n))
    (i : Instruction) : Keeps R (execute task i) := by
  have hroom (n : Nat) : Keeps R (checkRoom task n) := by
    intro p
    show R p (checkRoom task n p).2
    unfold checkRoom
    split <;> exact refl p
  unfold execute
  split
  · exact keeps_pure refl _
  · refine keeps_bind trans (keeps_operandSize refl hvarint i) fun n =>
      keeps_bind trans (hroom n) fun _ => ?_
    split
    · exact keeps_pure refl _
    · exact keeps_bind trans (hbytes n) happend
    · exact keeps_bind trans hbyte fun byte => hfill byte n
    · exact hcopy _ n

theorem keeps_onward_execute (i : Instruction) : Keeps Onward (execute task i) := by
  have hvarint : Keeps Onward (readInstructions (Cursor.readVarint Varint.maxValue)) := by
    intro p
    show Onward p (readInstructions _ p).2
    unfold readInstructions
    split
    · rename_i h
      exact Nat.le_of_lt (Cursor.readVarint_shortens h)
    · exact Onward.refl p
  have hdata {β : Type} (read : Cursor.Read β) : Keeps Onward (readData read) := by
    intro p
    show Onward p (readData read p).2
    unfold readData
    split <;> exact Onward.refl p
  have hcopy (mode n : Nat) : Keeps Onward (copy task mode n) := by
    intro p
    show Onward p (copy task mode n p).2
    unfold copy
    dsimp only
    split <;> exact Onward.refl p
  exact keeps_execute task Onward.refl Onward.trans hvarint (fun _ => hdata _) (hdata _)
    (fun _ => Onward.refl) (fun _ _ => Onward.refl) hcopy i

theorem step_shortens {p q : Progress} (h : step task p = (.ok true, q)) :
    q.instructions.rest.length < p.instructions.rest.length := by
  unfold step at h
  split at h
  · cases h
  · cases h
  · split at h
    · split at h <;> cases h
    · rename_i opcode instructions hread
      have hlt := Cursor.readByte_shortens hread
      have hle : Keeps Onward (executeEntry task (task.table.entry opcode)) :=
        keeps_bind Onward.trans (keeps_onward_execute task _)
          fun _ => keeps_onward_execute task _
      have := hle { p with instructions }
      split at h
      · rename_i heq
        cases h
        rw [heq] at this
        exact Nat.lt_of_le_of_lt this hlt
      · cases h

/-- Steps until the replay ends, and gives the target. -/
def run (p : Progress) : Except Fault (Array UInt8) × Progress :=
  match _h : step task p with
  | (.ok true, q) => run q
  | (.ok false, q) => (.ok q.target, q)
  | (.error fault, q) => (.error fault, q)
termination_by p.instructions.rest.length
decreasing_by exact step_shortens task _h

end Replay

end Vcdiff
