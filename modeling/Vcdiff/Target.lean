import Vcdiff.Bytes

/-!
The target of a window as it grows at its end. Addresses count through the source segment and then
on through the target written so far, so a copy can run from the one into the other and on into
its own output.
-/

namespace Vcdiff.Target

/-- Appends `n` times the same byte. -/
def fill (target : Array UInt8) (byte : UInt8) : Nat → Array UInt8
  | 0 => target
  | n + 1 => fill (target.push byte) byte n

/-- Appends `n` bytes of the target from `start` on, one at a time: each may have been written by
the same copy. -/
def repeatFrom (target : Array UInt8) (start : Nat) (h : start < target.size) :
    Nat → Array UInt8
  | 0 => target
  | n + 1 =>
    repeatFrom (target.push target[start]) (start + 1) (by rw [Array.size_push]; omega) n

/-- Appends `n` bytes from an address on. What lies in the source segment, and a stretch of the
target that ends before the bytes being written, is appended at once. -/
def copy (source target : Array UInt8) (address : Fin (source.size + target.size)) (n : Nat) :
    Array UInt8 :=
  let fromSource := min n (source.size - address.val)
  let written := target ++ source.extract address.val (address.val + fromSource)
  let left := n - fromSource
  let start := address.val + fromSource - source.size
  if h : start + left ≤ written.size then written ++ written.extract start (start + left)
  else repeatFrom written start (by
    have ha := address.isLt
    have hw : written.size = target.size + fromSource := by
      simp only [written, Array.size_append, Array.size_extract, fromSource]
      omega
    omega) left

theorem fill_eq_append (target : Array UInt8) (byte : UInt8) (n : Nat) :
    fill target byte n = target ++ Array.replicate n byte := by
  induction n generalizing target with
  | zero => simp [fill]
  | succ n ih => rw [fill, ih, Array.push_eq_append, Array.append_assoc, Array.replicate_succ']

@[simp] theorem size_fill (target : Array UInt8) (byte : UInt8) (n : Nat) :
    (fill target byte n).size = target.size + n := by
  simp [fill_eq_append]

@[simp] theorem size_repeatFrom (target : Array UInt8) (start : Nat) (h : start < target.size)
    (n : Nat) : (repeatFrom target start h n).size = target.size + n := by
  induction n generalizing target start with
  | zero => rfl
  | succ n ih => rw [repeatFrom, ih, Array.size_push]; omega

@[simp] theorem size_copy (source target : Array UInt8)
    (address : Fin (source.size + target.size)) (n : Nat) :
    (copy source target address n).size = target.size + n := by
  have ha := address.isLt
  dsimp only [copy]
  split
  · rename_i h
    simp only [Array.size_append, Array.size_extract] at h ⊢
    omega
  · simp only [size_repeatFrom, Array.size_append, Array.size_extract]
    omega

end Vcdiff.Target
