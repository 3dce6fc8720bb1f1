import Mathlib.Tactic.Common
import Vcdiff.Target

/-!
A copy is defined one byte at a time: each byte stands at its address in the segment followed by
the target, of which the bytes before it are already a part. `Target.copy` takes long stretches at
once where it can, and comes to the same.
-/

namespace Vcdiff.Target

/-- Appends `n` bytes from an address on, one at a time. -/
def copyBytes (source target : Bytes) (address : Nat) : Nat → Bytes
  | 0 => target
  | n + 1 => copyBytes source (target ++ (source ++ target)[address]?.toList) (address + 1) n

variable {source target : Bytes} {address start n : Nat}

/-- A copy can be broken off and taken up again. -/
lemma copyBytes_add (source target : Bytes) (address m n : Nat) :
    copyBytes source target address (m + n)
      = copyBytes source (copyBytes source target address m) (address + m) n := by
  induction m generalizing target address with
  | zero => rw [Nat.zero_add, Nat.add_zero, copyBytes]
  | succ m ih => rw [Nat.succ_add, copyBytes, ih, copyBytes, Nat.add_right_comm, Nat.add_assoc]

/-- What stands in the segment and the target before the copy begins is copied as it stands. -/
lemma copyBytes_append_of_le (more : Bytes) (h : address + n ≤ (source ++ target).length) :
    copyBytes source (target ++ more) address n
      = target ++ more ++ ((source ++ target).drop address).take n := by
  induction n generalizing more address with
  | zero => simp [copyBytes]
  | succ n ih =>
    have hlt : address < (source ++ target).length := by omega
    have hbyte : (source ++ (target ++ more))[address]? = some (source ++ target)[address] := by
      rw [← List.append_assoc, List.getElem?_append_left hlt, List.getElem?_eq_getElem hlt]
    rw [copyBytes, hbyte, Option.toList_some, List.append_assoc, ih _ (by omega),
      List.drop_eq_getElem_cons hlt, List.take_succ_cons]
    simp

lemma copyBytes_of_le (h : address + n ≤ (source ++ target).length) :
    copyBytes source target address n = target ++ ((source ++ target).drop address).take n := by
  simpa using copyBytes_append_of_le [] h

lemma copyBytes_of_source (target : Bytes) (h : address + n ≤ source.length) :
    copyBytes source target address n = target ++ (source.drop address).take n := by
  simpa using @copyBytes_append_of_le source [] address n target (by simpa using h)

lemma length_copyBytes (h : address < source.length + target.length) :
    (copyBytes source target address n).length = target.length + n := by
  induction n generalizing target address with
  | zero => rfl
  | succ n ih =>
    have hlt : address < (source ++ target).length := by rwa [List.length_append]
    have hlen : (target ++ (source ++ target)[address]?.toList).length = target.length + 1 := by
      rw [List.getElem?_eq_getElem hlt, Option.toList_some, List.length_append,
        List.length_singleton]
    rw [copyBytes, ih (by omega), hlen]
    omega

lemma prefix_copyBytes (source target : Bytes) (address n : Nat) :
    target <+: copyBytes source target address n := by
  induction n generalizing target address with
  | zero => exact List.prefix_refl target
  | succ n ih => exact (List.prefix_append _ _).trans (ih _ _)

/-- **The law of copies.** Each byte that a copy appends is the byte at its address, which may be
one that the same copy has appended. -/
theorem getElem?_copyBytes (h : address < source.length + target.length) {i : Nat} (hi : i < n) :
    ∃ byte,
      (source ++ copyBytes source target address n)[source.length + target.length + i]?
        = some byte ∧
      (source ++ copyBytes source target address n)[address + i]? = some byte := by
  induction n generalizing target address i with
  | zero => omega
  | succ n ih =>
    have hlt : address < (source ++ target).length := by rwa [List.length_append]
    rw [copyBytes, List.getElem?_eq_getElem hlt, Option.toList_some]
    cases i with
    | zero =>
      obtain ⟨more, hmore⟩ := prefix_copyBytes source (target ++ [(source ++ target)[address]])
        (address + 1) n
      refine ⟨(source ++ target)[address], ?_, ?_⟩
      · rw [← hmore]
        simp
      · rw [← hmore, List.append_assoc, ← List.append_assoc source, Nat.add_zero,
          List.getElem?_append_left hlt, List.getElem?_eq_getElem hlt]
    | succ i =>
      have hnext : address + 1 < source.length
          + (target ++ [(source ++ target)[address]]).length := by
        simp only [List.length_append, List.length_singleton]
        omega
      obtain ⟨byte, happended, hcopied⟩ := ih hnext (Nat.lt_of_succ_lt_succ hi)
      refine ⟨byte, ?_, ?_⟩
      · rw [← happended]
        congr 1
        simp only [List.length_append, List.length_singleton]
        omega
      · rw [← hcopied, Nat.add_right_comm, Nat.add_assoc]

lemma toList_repeatFrom (source : Bytes) {target : Array UInt8} (h : start < target.size) :
    (repeatFrom target start h n).toList
      = copyBytes source target.toList (source.length + start) n := by
  induction n generalizing target start with
  | zero => rfl
  | succ n ih =>
    have hbyte : (source ++ target.toList)[source.length + start]? = some target[start] := by
      rw [List.getElem?_append_right (by omega), Nat.add_sub_cancel_left]
      simp
    rw [repeatFrom, ih, copyBytes, hbyte, Option.toList_some, Array.toList_push, Nat.add_assoc]

/-- **Copies.** However a copy falls, it appends the bytes that copying one at a time appends. -/
theorem toList_copy (source target : Array UInt8) (address : Fin (source.size + target.size))
    (n : Nat) : (copy source target address n).toList
      = copyBytes source.toList target.toList address n := by
  have ha := address.isLt
  obtain ⟨k, hk⟩ : ∃ k, k = min n (source.size - address.val) := ⟨_, rfl⟩
  obtain ⟨written, hwritten⟩ : ∃ written,
      written = target ++ source.extract address.val (address.val + k) := ⟨_, rfl⟩
  have hsize : written.size = target.size + k := by
    rw [hwritten, Array.size_append, Array.size_extract]
    omega
  -- the bytes that lie in the segment come first
  have hfirst : copyBytes source.toList target.toList address k = written.toList := by
    rcases Nat.eq_zero_or_pos k with hzero | hpos
    · simp [hwritten, hzero, copyBytes]
    · have hle : address.val + k ≤ source.toList.length := by
        rw [Array.length_toList]
        omega
      rw [copyBytes_of_source _ hle, hwritten]
      simp [Array.toList_extract]
  have hcopy : copyBytes source.toList target.toList address n
      = copyBytes source.toList written.toList (address.val + k) (n - k) := by
    calc copyBytes source.toList target.toList address n
        = copyBytes source.toList target.toList address (k + (n - k)) := by
          rw [Nat.add_sub_cancel' (by omega)]
      _ = _ := by rw [copyBytes_add, hfirst]
  -- the others are left to the target, if there are any
  have hleft : copyBytes source.toList written.toList (address.val + k) (n - k)
      = copyBytes source.toList written.toList
          (source.toList.length + (address.val + k - source.size)) (n - k) := by
    rcases Nat.eq_zero_or_pos (n - k) with hzero | hpos
    · rw [hzero, copyBytes, copyBytes]
    · rw [Array.length_toList, Nat.add_sub_cancel' (by omega)]
  rw [hcopy, hleft, copy]
  simp only [← hk, ← hwritten]
  split
  · rename_i hle
    rw [copyBytes_of_le (by simp; omega), List.drop_length_add_append]
    simp [Array.toList_extract]
  · exact toList_repeatFrom _ _

end Vcdiff.Target
