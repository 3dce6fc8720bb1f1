import Vcdiff.Fault
import Vcdiff.Varint

/-!
Parsing of bytes that may still be arriving. A parser that stops says either how many bytes are
missing at least, or which fault no further byte can mend.
-/

namespace Vcdiff

/-- The bytes that are there from `position` on, and how many are still missing before it. -/
structure Input where
  position : Nat
  rest : Bytes
  gap : Nat
  deriving DecidableEq

namespace Input

def ofBytes (position : Nat) (bytes : Bytes) : Input := ⟨position, bytes, 0⟩

/-- The part of `bytes` from `offset` on. The offset may lie beyond what is there. -/
def ofOffset (bytes : Bytes) (offset : Nat) : Input :=
  ⟨offset, bytes.drop offset, offset - bytes.length⟩

def drop (i : Input) (n : Nat) : Input :=
  { i with position := i.position + n, rest := i.rest.drop n }

/-- How far the bytes that are there reach beyond the position; less than nothing if there is a
gap before it. -/
def available (i : Input) : Int := i.rest.length - i.gap

@[simp] theorem length_rest_drop (i : Input) (n : Nat) :
    (i.drop n).rest.length = i.rest.length - n := by
  simp [drop]

end Input

inductive Halt where
  | incomplete (missing : Nat)
  | invalid (fault : Fault)
  deriving DecidableEq

abbrev Parser (α : Type) := StateT Input (Except Halt) α

namespace Parser

variable {α : Type}

def failIf (c : Prop) [Decidable c] (fault : Fault) : Parser Unit := fun i =>
  if c then .error (.invalid fault) else .ok ((), i)

def position : Parser Nat := fun i => .ok (i.position, i)

/-- All bytes that are left; none of them is consumed. -/
def ahead : Parser Bytes := fun i => .ok (i.rest, i)

/-- Stops unless `n` bytes are there; none of them is consumed. -/
def need (n : Nat) : Parser Unit := fun i =>
  let there := (i.rest.take n).length
  if there < n then .error (.incomplete (n - there)) else .ok ((), i)

/-- The next byte, the first of `unit` bytes that all have to come. -/
def byte (unit : Nat) : Parser UInt8 := fun i =>
  match i.rest with
  | [] => .error (.incomplete unit)
  | b :: rest => .ok (b, { i with position := i.position + 1, rest })

def take (n : Nat) : Parser Bytes := do
  need n
  fun i => .ok (i.rest.take n, i.drop n)

def varint : Parser Nat := fun i =>
  match Varint.scan Varint.maxValue i.rest with
  | .value n size rest => .ok (n, { i with position := i.position + size, rest })
  | .tooLarge => .error (.invalid (.varintTooLarge i.position Varint.maxValue))
  | .cutOff => .error (.incomplete 1)

/-- Takes missing bytes for a fault, where no more bytes may come. -/
def orFault (p : Parser α) (fault : Fault) : Parser α := fun i =>
  match p i with
  | .error (.incomplete _) => .error (.invalid fault)
  | result => result

/-- Parses `bytes`, which stand at `start`, and goes on where it was. -/
def within (start : Nat) (bytes : Bytes) (p : Parser α) : Parser α := fun i =>
  match p (.ofBytes start bytes) with
  | .ok (a, _) => .ok (a, i)
  | .error halt => .error halt

variable {β : Type}

theorem bind_eq_ok_iff {p : Parser α} {f : α → Parser β} {i : Input} {r : β × Input} :
    (p >>= f) i = .ok r ↔ ∃ a j, p i = .ok (a, j) ∧ f a j = .ok r := by
  show Except.bind (p i) (fun x => f x.1 x.2) = .ok r ↔ _
  rcases p i with _ | ⟨a, j⟩
  · simp [Except.bind]
  · constructor
    · exact fun h => ⟨a, j, rfl, h⟩
    · rintro ⟨_, _, h1, h2⟩
      cases h1
      exact h2

/-- The parser consumes the bytes that its position moves over, from the front. -/
def Exact (p : Parser α) : Prop :=
  ∀ i a j, p i = .ok (a, j) →
    ∃ used, i.rest = used ++ j.rest ∧ j.position = i.position + used.length

theorem exact_pure (a : α) : Exact (pure a : Parser α) := by
  intro i _ _ h
  cases h
  exact ⟨[], rfl, rfl⟩

theorem exact_bind {p : Parser α} {f : α → Parser β} (hp : Exact p) (hf : ∀ a, Exact (f a)) :
    Exact (p >>= f) := by
  intro i b k h
  obtain ⟨a, j, h1, h2⟩ := bind_eq_ok_iff.1 h
  obtain ⟨u, hu, hpos⟩ := hp i a j h1
  obtain ⟨v, hv, hpos'⟩ := hf a j b k h2
  refine ⟨u ++ v, by rw [hu, hv, List.append_assoc], ?_⟩
  rw [hpos', hpos, List.length_append]
  omega

theorem exact_map {p : Parser α} (f : α → β) (hp : Exact p) : Exact (f <$> p) := by
  rw [← bind_pure_comp]
  exact exact_bind hp fun a => exact_pure (f a)

theorem failIf_eq_ok_iff {c : Prop} [Decidable c] {fault : Fault} {i : Input}
    {r : Unit × Input} : failIf c fault i = .ok r ↔ ¬ c ∧ r = ((), i) := by
  unfold failIf
  split <;> simp [*, eq_comm]

theorem exact_failIf (c : Prop) [Decidable c] (fault : Fault) : Exact (failIf c fault) := by
  intro i _ _ h
  obtain ⟨-, h⟩ := failIf_eq_ok_iff.1 h
  cases h
  exact ⟨[], rfl, rfl⟩

theorem exact_byte (unit : Nat) : Exact (byte unit) := by
  intro i _ _ h
  unfold byte at h
  split at h
  · cases h
  · rename_i heq
    cases h
    exact ⟨_ :: [], heq, rfl⟩

theorem exact_varint : Exact varint := by
  intro i _ _ h
  unfold varint at h
  split at h
  · rename_i heq
    cases h
    obtain ⟨used, hrest, -, rfl⟩ := Varint.append_of_scan heq
    exact ⟨used, hrest, rfl⟩
  · cases h
  · cases h

theorem need_eq_ok_iff {n : Nat} {i : Input} {r : Unit × Input} :
    need n i = .ok r ↔ n ≤ i.rest.length ∧ r = ((), i) := by
  unfold need
  dsimp only
  rw [List.length_take]
  split
  · simp
    omega
  · simp [eq_comm]
    omega

theorem exact_take (n : Nat) : Exact (take n) := by
  intro i _ _ h
  obtain ⟨_, j, h1, h2⟩ := bind_eq_ok_iff.1 h
  obtain ⟨hn, h1⟩ := need_eq_ok_iff.1 h1
  cases h1
  cases h2
  exact ⟨i.rest.take n, (List.take_append_drop n _).symm, by simp [Input.drop, Nat.min_eq_left hn]⟩

theorem exact_orFault {p : Parser α} (hp : Exact p) (fault : Fault) : Exact (p.orFault fault) := by
  intro i a j h
  unfold orFault at h
  split at h
  · cases h
  · exact hp i a j h

end Parser

end Vcdiff
