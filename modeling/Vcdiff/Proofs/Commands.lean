import Mathlib.Algebra.GroupWithZero.Nat
import Vcdiff.Proofs.Script

/-!
What the sections of a window say by themselves. The instructions section spells a list of
commands; each takes its operands from the data section or is given an address by the addresses
section. That is defined here without a replay, as a condition on the whole window and as the
instructions that the commands come to.
-/

namespace Vcdiff

def Varint.read? (bytes : Bytes) : Option (Nat × Nat) :=
  match scan maxValue bytes with
  | .value n size _ => some (n, size)
  | _ => none

namespace Cursor

def advance (c : Cursor) (n : Nat) : Cursor :=
  { c with position := c.position + n, rest := c.rest.drop n }

@[simp] lemma rest_advance (c : Cursor) (n : Nat) : (c.advance n).rest = c.rest.drop n := rfl

@[simp] lemma advance_zero (c : Cursor) : c.advance 0 = c := rfl

@[simp] lemma advance_advance (c : Cursor) (m n : Nat) :
    (c.advance m).advance n = c.advance (m + n) := by
  simp [advance, Nat.add_assoc]

end Cursor

/-! ### Addresses -/

namespace History

/-- The number that the bytes give for the next address in a mode, and how many of them it
takes. -/
def read? (nearSize sameSize : Nat) (history : History) (here : Nat) (bytes : Bytes) :
    AddressMode nearSize sameSize → Option (Int × Nat)
  | .self => (Varint.read? bytes).map fun (n, k) => (n, k)
  | .here => (Varint.read? bytes).map fun (n, k) => (here - n, k)
  | .near slot => (Varint.read? bytes).map fun (n, k) =>
      ((history.near nearSize slot + n : Nat), k)
  | .same block => bytes.head?.map fun b =>
      (history.same sameSize (256 * block + b.toNat), 1)

/-- The next address, which has to lie before `here`, and how many bytes it takes. -/
def address? (nearSize sameSize : Nat) (history : History) (here mode : Nat) (bytes : Bytes) :
    Option (Nat × Nat) := do
  let m ← AddressMode.ofNat? nearSize sameSize mode
  let (number, k) ← read? nearSize sameSize history here bytes m
  if 0 ≤ number ∧ number < here then return (number.toNat, k) else none

lemma lt_of_address? {nearSize sameSize here mode address k : Nat} {history : History}
    {bytes : Bytes} (h : history.address? nearSize sameSize here mode bytes = some (address, k)) :
    address < here := by
  simp only [address?, Option.bind_eq_bind, Option.bind_eq_some_iff] at h
  obtain ⟨m, -, ⟨number, l⟩, -, h⟩ := h
  split at h
  · cases h
    omega
  · cases h

end History

/-! ### Commands -/

/-- An instruction that knows its size, but not yet its operands. -/
inductive Command where
  | add (size : Nat)
  | run (size : Nat)
  | copy (mode size : Nat)
  deriving DecidableEq

namespace Command

def size : Command → Nat
  | add n => n
  | run n => n
  | copy _ n => n

def dataSize : Command → Nat
  | add n => n
  | run _ => 1
  | copy _ _ => 0

/-- The size of an instruction, and how many bytes after its opcode state it. -/
def size? (i : Instruction) (bytes : Bytes) : Option (Nat × Nat) :=
  if i.size = 0 then Varint.read? bytes else some (i.size.toNat, 0)

/-- The command of one half of a table entry, if it is for one, and the bytes that it takes. -/
def half? (i : Instruction) (bytes : Bytes) : Option (List Command × Nat) :=
  match i.kind with
  | .noop => some ([], 0)
  | .add => (size? i bytes).map fun (n, k) => ([add n], k)
  | .run => (size? i bytes).map fun (n, k) => ([run n], k)
  | .copy => (size? i bytes).map fun (n, k) => ([copy i.mode.toNat n], k)

def entry? (e : Entry) (bytes : Bytes) : Option (List Command × Nat) := do
  let (first, k) ← half? e.1 bytes
  let (second, l) ← half? e.2 (bytes.drop k)
  return (first ++ second, k + l)

/-- The commands that an instructions section spells, opcode by opcode to its end. -/
def parse? (table : CodeTable) : Bytes → Option (List Command)
  | [] => some []
  | opcode :: rest =>
    match entry? (table.entry opcode) rest with
    | none => none
    | some (commands, k) => (parse? table (rest.drop k)).map (commands ++ ·)
termination_by bytes => bytes.length
decreasing_by
  rw [List.length_drop, List.length_cons]
  omega

/-- The addresses that an addresses section gives to the copies among the commands, and how many
bytes they take. The first command stands at `here`. -/
def addresses? (nearSize sameSize : Nat) :
    History → Nat → List Command → Bytes → Option (List Nat × Nat)
  | _, _, [], _ => some ([], 0)
  | history, here, copy mode n :: commands, bytes =>
    (history.address? nearSize sameSize here mode bytes).bind fun (address, k) =>
      (addresses? nearSize sameSize (address :: history) (here + n) commands
        (bytes.drop k)).map fun (operands, l) => (address :: operands, k + l)
  | history, here, c :: commands, bytes =>
    addresses? nearSize sameSize history (here + c.size) commands bytes

/-- The commands with their operands: an ADD has the next bytes of the data section, a RUN the
next byte, a COPY the next address. -/
def ops : List Command → Bytes → List Nat → List Op
  | add n :: commands, data, addresses =>
    .add (data.take n) :: ops commands (data.drop n) addresses
  | run n :: commands, byte :: data, addresses => .run byte n :: ops commands data addresses
  | copy _ n :: commands, data, address :: addresses =>
    .copy address n :: ops commands data addresses
  | _, _, _ => []

section Addresses

variable {nearSize sameSize : Nat} (history : History) (here : Nat) (bytes : Bytes)

lemma addresses?_copy (mode n : Nat) :
    addresses? nearSize sameSize history here [copy mode n] bytes
      = (history.address? nearSize sameSize here mode bytes).map fun (address, k) =>
          ([address], k) := by
  rcases h : history.address? nearSize sameSize here mode bytes with _ | ⟨address, k⟩ <;>
    simp [addresses?, h]

lemma addresses?_cons (c : Command) (commands : List Command) :
    addresses? nearSize sameSize history here (c :: commands) bytes
      = (addresses? nearSize sameSize history here [c] bytes).bind fun (operands, k) =>
        (addresses? nearSize sameSize (operands.reverse ++ history) (here + c.size) commands
          (bytes.drop k)).map fun (more, l) => (operands ++ more, k + l) := by
  cases c with
  | add n => simp [addresses?]
  | run n => simp [addresses?]
  | copy mode n =>
    rw [addresses?_copy]
    rcases h : history.address? nearSize sameSize here mode bytes with _ | ⟨address, k⟩
    · simp [addresses?, h]
    · simp [addresses?, h, size]

end Addresses

end Command

/-- The sections of a window spell the commands, and have all that the commands ask for: bytes
enough in the data section, and in the addresses section an address for each COPY. The commands
make a target of the length and the checksum that the window declares. -/
structure Task.Accepts (task : Task) (nearSize sameSize : Nat) (s : Sections)
    (commands : List Command) (operands : List Nat) (taken : Nat) : Prop where
  instructions : Command.parse? task.table s.instructions = some commands
  size : (commands.map Command.size).sum = task.targetLength
  data : (commands.map Command.dataSize).sum ≤ s.data.length
  addresses : Command.addresses? nearSize sameSize [] task.source.size commands s.addresses
    = some (operands, taken)
  checksum : ∀ checksum, task.checksum = some checksum → Checksum.plain Checksum.initial
    (targetOf task.source.toList (Command.ops commands s.data operands)) = checksum

/-! ### One command after the other -/

/-- What is left of the data and addresses sections, and what has been made of the rest. -/
structure Ledger where
  data : Cursor
  addresses : Cursor
  history : History
  target : Bytes

namespace Ledger

def start (data addresses : Cursor) : Ledger := ⟨data, addresses, [], []⟩

variable (task : Task) (nearSize sameSize : Nat)

/-- Gives a command its operands and appends what it makes to the target. -/
def serve (l : Ledger) : Command → Option Ledger
  | .add n =>
    if n ≤ l.data.rest.length then
      some { l with data := l.data.advance n, target := l.target ++ l.data.rest.take n }
    else none
  | .run n => l.data.rest.head?.map fun byte =>
      { l with data := l.data.advance 1, target := l.target ++ List.replicate n byte }
  | .copy mode n =>
    (l.history.address? nearSize sameSize (task.source.size + l.target.length) mode
      l.addresses.rest).map fun (address, k) =>
        { l with
          addresses := l.addresses.advance k
          history := address :: l.history
          target := Target.copyBytes task.source.toList l.target address n }

def perform (l : Ledger) (c : Command) : Option Ledger :=
  if c.size ≤ task.targetLength - l.target.length then l.serve task nearSize sameSize c else none

/-- The ledger after commands that have been given these addresses, from so many bytes. -/
def after (l : Ledger) (commands : List Command) (operands : List Nat) (taken : Nat) : Ledger where
  data := l.data.advance (commands.map Command.dataSize).sum
  addresses := l.addresses.advance taken
  history := operands.reverse ++ l.history
  target := (Command.ops commands l.data.rest operands).foldl (Op.apply task.source.toList) l.target

variable {task nearSize sameSize} {l m : Ledger} {c : Command} {commands : List Command}

lemma perform_eq_some_iff :
    l.perform task nearSize sameSize c = some m ↔
      c.size ≤ task.targetLength - l.target.length ∧ l.serve task nearSize sameSize c = some m := by
  unfold perform
  split <;> simp [*]

/-- A command is served if its bytes are there and, for a COPY, its address is. -/
lemma serve_eq_some_iff :
    l.serve task nearSize sameSize c = some m ↔ c.dataSize ≤ l.data.rest.length ∧
      ∃ operands k, Command.addresses? nearSize sameSize l.history
        (task.source.size + l.target.length) [c] l.addresses.rest = some (operands, k) ∧
        l.after task [c] operands k = m := by
  cases c with
  | add n => simp [serve, Command.dataSize, Command.addresses?, after, Command.ops, Op.apply]
  | run n =>
    rcases hdata : l.data.rest with _ | ⟨byte, data⟩
    · simp [serve, hdata, Command.dataSize]
    · simp [serve, hdata, Command.dataSize, Command.addresses?, after, Command.ops, Op.apply]
  | copy mode n =>
    rcases haddress : l.history.address? nearSize sameSize (task.source.size + l.target.length)
      mode l.addresses.rest with _ | ⟨address, k⟩
    · simp [serve, Command.addresses?_copy, haddress]
    · simp [serve, Command.addresses?_copy, haddress, Command.dataSize, after, Command.ops,
        Op.apply]

section Served

variable {taken k : Nat} {operands more : List Nat}

/-- A command that is served makes as many bytes as it says. -/
lemma length_target_after (hdata : c.dataSize ≤ l.data.rest.length)
    (h : Command.addresses? nearSize sameSize l.history (task.source.size + l.target.length) [c]
      l.addresses.rest = some (operands, k)) :
    (l.after task [c] operands k).target.length = l.target.length + c.size := by
  cases c with
  | add n =>
    rw [Command.dataSize] at hdata
    simp [after, Command.ops, Op.apply, Command.size, hdata]
  | run n =>
    obtain ⟨byte, data, hrest⟩ := List.exists_cons_of_length_pos hdata
    simp [after, Command.ops, Op.apply, Command.size, hrest]
  | copy mode n =>
    rw [Command.addresses?_copy, Option.map_eq_some_iff] at h
    obtain ⟨⟨address, _⟩, haddress, h⟩ := h
    cases h
    have hlt : address < task.source.toList.length + l.target.length := by
      rw [Array.length_toList]
      exact History.lt_of_address? haddress
    exact Target.length_copyBytes hlt

lemma after_cons (hdata : c.dataSize ≤ l.data.rest.length)
    (h : Command.addresses? nearSize sameSize l.history (task.source.size + l.target.length) [c]
      l.addresses.rest = some (operands, k)) :
    l.after task (c :: commands) (operands ++ more) (k + taken)
      = (l.after task [c] operands k).after task commands more taken := by
  cases c with
  | add n =>
    cases h
    simp [after, Command.dataSize, Command.ops, Op.apply]
  | run n =>
    obtain ⟨byte, data, hrest⟩ := List.exists_cons_of_length_pos hdata
    cases h
    simp [after, Command.dataSize, Command.ops, Op.apply, hrest]
  | copy mode n =>
    rw [Command.addresses?_copy, Option.map_eq_some_iff] at h
    obtain ⟨⟨address, _⟩, -, h⟩ := h
    cases h
    simp [after, Command.dataSize, Command.ops, Op.apply]

end Served

/-- The commands are carried out one after the other if there is room for them together, bytes for
them together, and an address for every COPY. -/
theorem foldlM_perform_eq_some_iff :
    commands.foldlM (perform task nearSize sameSize) l = some m ↔ ∃ operands taken,
      (commands.map Command.size).sum ≤ task.targetLength - l.target.length ∧
      (commands.map Command.dataSize).sum ≤ l.data.rest.length ∧
      Command.addresses? nearSize sameSize l.history (task.source.size + l.target.length) commands
        l.addresses.rest = some (operands, taken) ∧
      l.after task commands operands taken = m := by
  induction commands generalizing l with
  | nil => simp [Command.addresses?, after, Command.ops]
  | cons c commands ih =>
    have hleft (operands : List Nat) (k : Nat) : (l.after task [c] operands k).data.rest.length
        = l.data.rest.length - c.dataSize := by
      simp [after]
    simp only [List.foldlM_cons, Option.bind_eq_bind, Option.bind_eq_some_iff, perform_eq_some_iff,
      serve_eq_some_iff, ih, List.map_cons, List.sum_cons]
    constructor
    · rintro ⟨_, ⟨hroom, hbytes, operands, k, hfirst, rfl⟩, more, taken, hsize, hdata, hmore, rfl⟩
      rw [length_target_after hbytes hfirst, ← Nat.add_assoc] at hmore
      rw [length_target_after hbytes hfirst] at hsize
      rw [hleft] at hdata
      refine ⟨operands ++ more, k + taken, by omega, by omega, ?_, after_cons hbytes hfirst⟩
      rw [Command.addresses?_cons, hfirst]
      exact Option.map_eq_some_iff.2 ⟨_, hmore, rfl⟩
    · rintro ⟨operands, taken, hsize, hdata, haddresses, rfl⟩
      rw [Command.addresses?_cons, Option.bind_eq_some_iff] at haddresses
      obtain ⟨⟨first, k⟩, hfirst, haddresses⟩ := haddresses
      obtain ⟨⟨more, n⟩, hmore, haddresses⟩ := Option.map_eq_some_iff.1 haddresses
      cases haddresses
      have hbytes : c.dataSize ≤ l.data.rest.length := by omega
      refine ⟨_, ⟨by omega, hbytes, first, k, hfirst, rfl⟩, more, n, ?_, ?_, ?_,
        (after_cons hbytes hfirst).symm⟩
      · rw [length_target_after hbytes hfirst]
        omega
      · rw [hleft]
        omega
      · rw [length_target_after hbytes hfirst, ← Nat.add_assoc]
        exact hmore

lemma length_of_foldlM (h : commands.foldlM (perform task nearSize sameSize) l = some m) :
    m.target.length = l.target.length + (commands.map Command.size).sum := by
  induction commands generalizing l with
  | nil =>
    cases h
    simp
  | cons c commands ih =>
    rw [List.foldlM_cons, Option.bind_eq_bind, Option.bind_eq_some_iff] at h
    obtain ⟨l₁, hfirst, h⟩ := h
    obtain ⟨-, hserve⟩ := perform_eq_some_iff.1 hfirst
    obtain ⟨hbytes, operands, k, haddress, rfl⟩ := serve_eq_some_iff.1 hserve
    rw [ih h, length_target_after hbytes haddress, List.map_cons, List.sum_cons]
    omega

end Ledger

end Vcdiff
