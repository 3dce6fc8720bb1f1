import Vcdiff.Fault
import Vcdiff.Varint

/-!
A cursor reads a named section front to back. Each read either succeeds and gives the cursor after
it, or fails with a fault and gives none, so a failed read changes nothing.
-/

namespace Vcdiff

/-- `start` and `position` count from the front of the input that the section lies in. -/
structure Cursor where
  label : String
  start : Nat
  position : Nat
  rest : Bytes
  deriving DecidableEq

namespace Cursor

abbrev Read (α : Type) := StateT Cursor (Except Fault) α

def ofSection (label : String) (start : Nat) (bytes : Bytes) : Cursor :=
  ⟨label, start, start, bytes⟩

/-- A cursor over the part of `bytes` from `start` to `stop`, if there is such a part. -/
def ofRegion (label : String) (bytes : Bytes) (start stop : Int) : Except Fault Cursor :=
  if start < 0 ∨ (bytes.length : Int) < stop ∨ stop < start then
    .error (.regionOutside label start stop bytes.length)
  else .ok (ofSection label start.toNat (bytes.between start.toNat stop.toNat))

variable (c : Cursor)

def remaining : Nat := c.rest.length

def stop : Nat := c.position + c.remaining

def consumed : Nat := c.position - c.start

def atEnd : Bool := c.rest.isEmpty

/-- The fault of a read that wants more than is left. -/
def exhausted (wanted : Nat) : Fault :=
  .sectionExhausted c.label wanted c.position c.remaining

def readByte : Read UInt8 := fun c =>
  match c.rest with
  | [] => .error (c.exhausted 1)
  | b :: rest => .ok (b, { c with position := c.position + 1, rest })

def readBytes (n : Nat) : Read Bytes := fun c =>
  let taken := c.rest.take n
  if taken.length < n then .error (c.exhausted n)
  else .ok (taken, { c with position := c.position + n, rest := c.rest.drop n })

def skip (n : Nat) : Read Unit := do
  let _ ← readBytes n

/-- Four bytes, the most significant first. -/
def readUInt32 : Read Nat := do
  return (← readBytes 4).toNat

def readVarint (limit : Nat) : Read Nat := fun c =>
  match Varint.scan limit c.rest with
  | .value n size rest => .ok (n, { c with position := c.position + size, rest })
  | .tooLarge => .error (.varintTooLarge c.position limit)
  | .cutOff => .error (.varintCutOff c.label c.position)

variable {c}

theorem readBytes_of_le {n : Nat} (h : n ≤ c.rest.length) :
    readBytes n c
      = .ok (c.rest.take n, { c with position := c.position + n, rest := c.rest.drop n }) := by
  simp [readBytes, Nat.min_eq_left h]

theorem readBytes_of_lt {n : Nat} (h : c.rest.length < n) :
    readBytes n c = .error (c.exhausted n) := by
  simp [readBytes, Nat.min_eq_right (Nat.le_of_lt h), h]

theorem readByte_shortens {d : Cursor} {b : UInt8} (h : readByte c = .ok (b, d)) :
    d.rest.length < c.rest.length := by
  unfold readByte at h
  split at h
  · cases h
  · rename_i heq
    cases h
    simp [heq]

theorem readVarint_shortens {d : Cursor} {limit n : Nat} (h : readVarint limit c = .ok (n, d)) :
    d.rest.length < c.rest.length := by
  unfold readVarint at h
  split at h
  · rename_i heq
    cases h
    obtain ⟨used, hrest, hne, -⟩ := Varint.append_of_scan heq
    have := List.length_pos_iff.2 hne
    simp only [hrest, List.length_append]
    omega
  · cases h
  · cases h

end Cursor

end Vcdiff
