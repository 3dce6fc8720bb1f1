import Mathlib.Tactic.Common
import Vcdiff.Varint

/-!
What a scan says about a number once more bytes have come, and the forms in which a number may
be written: the shortest one, or that one after groups of zero.
-/

namespace Vcdiff.Varint

variable {limit acc size n k : Nat} {bytes rest : Bytes}

/-! ### Further bytes -/

/-- A number that has been read is decided by the bytes that it takes. -/
lemma scanFrom_local (h : scanFrom limit acc size bytes = .value n k rest) :
    ∃ used, bytes = used ++ rest ∧ used ≠ [] ∧ k = size + used.length ∧
      ∀ tail, scanFrom limit acc size (used ++ tail) = .value n k tail := by
  induction bytes generalizing acc size with
  | nil => simp at h
  | cons b bytes ih =>
    simp only [scanFrom] at h
    split at h
    · cases h
    · rename_i hle
      split at h
      · rename_i hc
        obtain ⟨used, rfl, -, rfl, htail⟩ := ih h
        refine ⟨b :: used, rfl, by simp, by simp only [List.length_cons]; omega, fun tail => ?_⟩
        rw [List.cons_append, scanFrom, if_neg hle, if_pos hc, htail]
      · rename_i hc
        cases h
        exact ⟨[b], rfl, by simp, rfl, fun tail => by simp [scanFrom, hle, hc]⟩

lemma scan_local (h : scan limit bytes = .value n k rest) :
    ∃ used, bytes = used ++ rest ∧ used ≠ [] ∧ k = used.length ∧
      ∀ tail, scan limit (used ++ tail) = .value n k tail := by
  simpa [scan] using scanFrom_local h

/-- A number that is too large stays so. -/
lemma scanFrom_tooLarge (h : scanFrom limit acc size bytes = .tooLarge) (more : Bytes) :
    scanFrom limit acc size (bytes ++ more) = .tooLarge := by
  induction bytes generalizing acc size with
  | nil => simp at h
  | cons b bytes ih =>
    simp only [List.cons_append, scanFrom] at h ⊢
    split
    · rfl
    · rename_i hle
      rw [if_neg hle] at h
      split
      · rename_i hc
        rw [if_pos hc] at h
        exact ih h
      · rename_i hc
        rw [if_neg hc] at h
        cases h

lemma scan_tooLarge (h : scan limit bytes = .tooLarge) (more : Bytes) :
    scan limit (bytes ++ more) = .tooLarge :=
  scanFrom_tooLarge h more

/-! ### Written forms -/

/-- The bytes write the number, perhaps after groups of zero. -/
def Form (n : Nat) (bytes : Bytes) : Prop :=
  ∃ zeros, bytes = List.replicate zeros 0x80 ++ write n

lemma scanFrom_zeros (zeros size : Nat) (bytes : Bytes) :
    scanFrom limit 0 size (List.replicate zeros 0x80 ++ bytes)
      = scanFrom limit 0 (size + zeros) bytes := by
  induction zeros generalizing size with
  | zero => rfl
  | succ zeros ih =>
    have hstep : scanFrom limit 0 size (0x80 :: (List.replicate zeros 0x80 ++ bytes))
        = scanFrom limit 0 (size + 1) (List.replicate zeros 0x80 ++ bytes) := by
      simp [scanFrom, group, continues]
    rw [List.replicate_succ, List.cons_append, hstep, ih, Nat.add_right_comm, Nat.add_assoc]

/-- The bytes before a scan count toward its size and do nothing else. -/
lemma scanFrom_size (h : scanFrom limit acc size bytes = .value n k rest) (before : Nat) :
    scanFrom limit acc (size + before) bytes = .value n (k + before) rest := by
  induction bytes generalizing acc size with
  | nil => simp at h
  | cons b bytes ih =>
    simp only [scanFrom] at h ⊢
    split
    · rename_i hgt
      rw [if_pos hgt] at h
      cases h
    · rename_i hle
      rw [if_neg hle] at h
      split
      · rename_i hc
        rw [if_pos hc] at h
        rw [Nat.add_right_comm]
        exact ih h
      · rename_i hc
        rw [if_neg hc] at h
        cases h
        rw [Nat.add_right_comm]

/-- Every written form of a number within the limit is read as that number. -/
theorem scan_form (h : Form n bytes) (hn : n ≤ limit) (rest : Bytes) :
    scan limit (bytes ++ rest) = .value n bytes.length rest := by
  obtain ⟨zeros, rfl⟩ := h
  rw [scan, List.append_assoc, scanFrom_zeros, scanFrom_size (scan_write hn rest) zeros,
    List.length_append, List.length_replicate, Nat.add_comm]

def Written (n : Nat) (bytes : Bytes) : Prop := n ≤ maxValue ∧ Form n bytes

/-- The shortest form is one of the forms. -/
lemma written_write (h : n ≤ maxValue) : Written n (write n) := ⟨h, 0, rfl⟩

lemma written_of_lt (h : n < 128 := by decide) : Written n [UInt8.ofNat n] := by
  have hshort : n / 128 = 0 := by omega
  refine ⟨by rw [maxValue]; omega, 0, ?_⟩
  rw [write, hshort, leadingGroups, Nat.mod_eq_of_lt h]
  rfl

lemma Written.pad (h : Written n bytes) : Written n (0x80 :: bytes) := by
  obtain ⟨hle, zeros, rfl⟩ := h
  exact ⟨hle, zeros + 1, rfl⟩

lemma scan_written (h : Written n bytes) (rest : Bytes) :
    scan maxValue (bytes ++ rest) = .value n bytes.length rest :=
  scan_form h.2 h.1 rest

/-! ### What has been read -/

lemma le_of_scanFrom (h : scanFrom limit acc size bytes = .value n k rest) : n ≤ limit := by
  induction bytes generalizing acc size with
  | nil => simp at h
  | cons b bytes ih =>
    simp only [scanFrom] at h
    split at h
    · cases h
    · split at h
      · exact ih h
      · cases h
        omega

/-- The bytes before the last one grow by a byte that continues, unless it is a group of zero in
front of the number. -/
lemma leadingGroups_of_continues {b : UInt8} (hc : continues b = true)
    (hpos : acc * 128 + group b ≠ 0) :
    leadingGroups (acc * 128 + group b) = leadingGroups acc ++ [b] := by
  have hb := b.toNat_lt
  have hge : 128 ≤ b.toNat := by simpa [continues] using hc
  have hdiv : (acc * 128 + group b) / 128 = acc := by unfold group; omega
  have hmod : (acc * 128 + group b) % 128 + 128 = b.toNat := by unfold group; omega
  rw [leadingGroups, if_neg hpos, hdiv, hmod, UInt8.ofNat_toNat]

lemma eq_of_continues_of_group {b : UInt8} (hc : continues b = true) (hzero : group b = 0) :
    b = 0x80 := by
  have hb := b.toNat_lt
  have hge : 128 ≤ b.toNat := by simpa [continues] using hc
  have hnat : b.toNat = 128 := by
    unfold group at hzero
    omega
  exact UInt8.toNat_inj.1 hnat

lemma write_of_not_continues {b : UInt8} (hc : ¬ continues b = true) :
    write (acc * 128 + group b) = leadingGroups acc ++ [b] := by
  have hlt : b.toNat < 128 := by simpa [continues] using hc
  have hdiv : (acc * 128 + group b) / 128 = acc := by unfold group; omega
  have hmod : (acc * 128 + group b) % 128 = b.toNat := by unfold group; omega
  rw [write, hdiv, hmod, UInt8.ofNat_toNat]

/-- The bytes that are read, after those that made `acc`, are a written form of the number. -/
lemma form_of_scanFrom (h : scanFrom limit acc size bytes = .value n k rest) :
    ∃ used, bytes = used ++ rest ∧ k = size + used.length ∧ Form n (leadingGroups acc ++ used) := by
  induction bytes generalizing acc size with
  | nil => simp at h
  | cons b bytes ih =>
    simp only [scanFrom] at h
    split at h
    · cases h
    · split at h
      · rename_i hc
        obtain ⟨used, rfl, rfl, zeros, hform⟩ := ih h
        refine ⟨b :: used, rfl, by simp only [List.length_cons]; omega, ?_⟩
        by_cases hzero : acc * 128 + group b = 0
        · -- a group of zero before the number
          obtain ⟨hacc, hgroup⟩ : acc = 0 ∧ group b = 0 := by omega
          rw [hzero, leadingGroups, if_pos rfl, List.nil_append] at hform
          refine ⟨zeros + 1, ?_⟩
          rw [hacc, leadingGroups, if_pos rfl, hform, eq_of_continues_of_group hc hgroup]
          rfl
        · rw [leadingGroups_of_continues hc hzero, List.append_assoc] at hform
          exact ⟨zeros, hform⟩
      · rename_i hc
        cases h
        exact ⟨[b], rfl, rfl, 0, (write_of_not_continues hc).symm⟩

/-- What is read as a number is one of its written forms. -/
theorem written_of_scan (h : scan maxValue bytes = .value n k rest) :
    ∃ used, bytes = used ++ rest ∧ k = used.length ∧ Written n used := by
  obtain ⟨used, hbytes, hk, hform⟩ := form_of_scanFrom h
  rw [leadingGroups, if_pos rfl, List.nil_append] at hform
  exact ⟨used, hbytes, by rw [hk, Nat.zero_add], le_of_scanFrom h, hform⟩

end Vcdiff.Varint
