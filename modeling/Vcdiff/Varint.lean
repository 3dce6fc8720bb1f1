import Vcdiff.Bytes
import Vcdiff.Fault

/-!
Variable-length integers. A number is written in base 128, the most significant group first; every
byte but the last has its high bit set. `scan` reads one under a limit, `write` is its shortest
form, and `scan_write` says that the first undoes the second.
-/

namespace Vcdiff.Varint

/-- The largest size, position or address that a delta may state. -/
def maxValue : Nat := 4294967295

/-- What the front of a byte string says about the number that is written there. -/
inductive Scan where
  | value (n size : Nat) (rest : Bytes)
  | tooLarge
  | cutOff
  deriving DecidableEq

/-- The bits that a byte adds to the number. -/
def group (b : UInt8) : Nat := b.toNat % 128

/-- The byte is followed by another one of the same number. -/
def continues (b : UInt8) : Bool := 128 ≤ b.toNat

/-- Reads on after `size` bytes that make `acc`; a number is too large as soon as the groups
so far are, whether or not its last byte is there. -/
def scanFrom (limit acc size : Nat) : Bytes → Scan
  | [] => .cutOff
  | b :: rest =>
    let n := acc * 128 + group b
    if limit < n then .tooLarge
    else if continues b then scanFrom limit n (size + 1) rest
    else .value n (size + 1) rest

def scan (limit : Nat) (bytes : Bytes) : Scan := scanFrom limit 0 0 bytes

/-- The number that begins at `offset` and the bytes that it takes, or none when it goes on
past `stop`. -/
def decode (limit : Nat) (bytes : Bytes) (offset stop : Nat) : Except Fault (Option (Nat × Nat)) :=
  match scan limit (bytes.between offset stop) with
  | .value n size _ => .ok (some (n, size))
  | .tooLarge => .error (.varintTooLarge offset limit)
  | .cutOff => .ok none

/-- The bytes before the last one, for the number that they make. -/
def leadingGroups (n : Nat) : Bytes :=
  if n = 0 then [] else leadingGroups (n / 128) ++ [UInt8.ofNat (n % 128 + 128)]

/-- The shortest form of a number. -/
def write (n : Nat) : Bytes := leadingGroups (n / 128) ++ [UInt8.ofNat (n % 128)]

@[simp] theorem scanFrom_nil (limit acc size : Nat) : scanFrom limit acc size [] = .cutOff := rfl

@[simp] theorem scan_nil (limit : Nat) : scan limit [] = .cutOff := rfl

theorem append_of_scanFrom {limit acc size n k : Nat} {bytes rest : Bytes}
    (h : scanFrom limit acc size bytes = .value n k rest) :
    ∃ used, bytes = used ++ rest ∧ used ≠ [] ∧ k = size + used.length := by
  induction bytes generalizing acc size with
  | nil => simp at h
  | cons b bytes ih =>
    simp only [scanFrom] at h
    split at h
    · cases h
    · split at h
      · obtain ⟨used, rfl, -, rfl⟩ := ih h
        exact ⟨b :: used, rfl, by simp, by rw [List.length_cons]; omega⟩
      · cases h
        exact ⟨[b], rfl, by simp, rfl⟩

/-- A number takes the bytes that it says, at least one, and leaves the others. -/
theorem append_of_scan {limit n k : Nat} {bytes rest : Bytes}
    (h : scan limit bytes = .value n k rest) :
    ∃ used, bytes = used ++ rest ∧ used ≠ [] ∧ k = used.length := by
  simpa using append_of_scanFrom h

theorem scanFrom_leadingGroups {limit n : Nat} (h : n ≤ limit) (rest : Bytes) :
    scan limit (leadingGroups n ++ rest)
      = scanFrom limit n (leadingGroups n).length rest := by
  fun_induction leadingGroups n generalizing rest with
  | case1 => rfl
  | case2 n hn ih =>
    have hb : (UInt8.ofNat (n % 128 + 128)).toNat = n % 128 + 128 := by
      simp; omega
    rw [List.append_assoc, ih (by omega)]
    simp only [List.cons_append, List.nil_append, scanFrom, group, continues, hb,
      List.length_append, List.length_singleton]
    have hv : n / 128 * 128 + (n % 128 + 128) % 128 = n := by omega
    simp only [hv, show ¬ limit < n by omega, if_false,
      show 128 ≤ n % 128 + 128 by omega, decide_true, if_true]

theorem scan_write {limit n : Nat} (h : n ≤ limit) (rest : Bytes) :
    scan limit (write n ++ rest) = .value n (write n).length rest := by
  have hb : (UInt8.ofNat (n % 128)).toNat = n % 128 := by simp; omega
  rw [write, List.append_assoc, scanFrom_leadingGroups (by omega)]
  simp only [List.cons_append, List.nil_append, scanFrom, group, continues, hb,
    List.length_append, List.length_singleton]
  have hv : n / 128 * 128 + n % 128 % 128 = n := by omega
  simp only [hv, show ¬ limit < n by omega, if_false,
    show ¬ 128 ≤ n % 128 by omega, decide_false, Bool.false_eq_true]

end Vcdiff.Varint
