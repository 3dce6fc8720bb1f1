import Mathlib.Algebra.BigOperators.Group.List.Basic
import Mathlib.Algebra.Ring.Divisibility.Basic
import Mathlib.RingTheory.Int.Basic
import Mathlib.Tactic.NormNum.Prime
import Mathlib.Tactic.Ring
import Vcdiff.Proofs.Acceptance
import Vcdiff.Proofs.Adler

/-!
The errors that a checksum catches. Apart from what they start from, its two sums are the sum of
the bytes and a sum that weights each byte by its distance from the end. A changed byte moves the
first by less than the modulus. Two bytes that change places leave the first as it is, and move the
second by a product: their difference times their distance. Since the modulus is prime, that goes
unnoticed only if the distance is a multiple of it.
-/

namespace Vcdiff

namespace Checksum

/-- The strings have the same length and differ in exactly one position. -/
def DifferOnce (x y : Bytes) : Prop := x.length = y.length ∧ ∃! i : Nat, x[i]? ≠ y[i]?

def Exchanged (i j : Nat) (x y : Bytes) : Prop :=
  ∃ (hi : i < x.length) (hj : j < x.length), x[i] ≠ x[j] ∧ y = (x.set i x[j]).set j x[i]

/-- The second string comes from the first by an error that no checksum misses: one byte is
changed, or two are exchanged whose distance is not a multiple of the modulus. -/
def Garbled (x y : Bytes) : Prop :=
  DifferOnce x y ∨ ∃ i j : Nat, ¬ (modulus : ℤ) ∣ (i : ℤ) - j ∧ Exchanged i j x y

def total : Bytes → ℤ
  | [] => 0
  | b :: bytes => b.toNat + total bytes

/-- The sum of the bytes, each as often as there are bytes from it on. -/
def weighted : Bytes → ℤ
  | [] => 0
  | b :: bytes => (bytes.length + 1) * b.toNat + weighted bytes

variable {x y bytes : Bytes} {before i j : Nat} {c : UInt8}

/-! ### The sums in closed form -/

/-- What each sum comes to, without reductions. -/
lemma foldl_add (s : Sums) (bytes : Bytes) :
    ((bytes.foldl Sums.add s).a : ℤ) = s.a + total bytes ∧
      ((bytes.foldl Sums.add s).b : ℤ) = s.b + bytes.length * s.a + weighted bytes := by
  induction bytes generalizing s with
  | nil => simp [total, weighted]
  | cons b bytes ih =>
    obtain ⟨ha, hb⟩ := ih (s.add b)
    rw [List.foldl_cons, ha, hb, Sums.add, total, weighted, List.length_cons]
    push_cast
    constructor
    · ring
    · ring

lemma adler32_of_ne_nil (h : bytes ≠ []) :
    adler32 before bytes = (bytes.foldl Sums.add (Sums.ofNat before)).reduce.toNat := by
  rw [adler32_eq_plain, plain, ← Sums.addBlock_eq h, Sums.addBlock]

/-- Reduced sums can be told from the checksum that they make. -/
lemma toNat_reduce_eq_iff {s t : Sums} :
    s.reduce.toNat = t.reduce.toNat ↔ (modulus : ℤ) ∣ t.a - s.a ∧ (modulus : ℤ) ∣ t.b - s.b := by
  simp only [Sums.toNat, Sums.reduce, modulus]
  omega

/-- Two strings of the same length have the same checksum just if both sums differ by multiples of
the modulus, whatever they are continued from. -/
theorem adler32_eq_iff (hlength : x.length = y.length) (hne : x ≠ []) :
    adler32 before x = adler32 before y ↔
      (modulus : ℤ) ∣ total y - total x ∧ (modulus : ℤ) ∣ weighted y - weighted x := by
  have hne' : y ≠ [] := by
    rw [← List.length_pos_iff, hlength, List.length_pos_iff] at hne
    exact hne
  obtain ⟨hxa, hxb⟩ := foldl_add (Sums.ofNat before) x
  obtain ⟨hya, hyb⟩ := foldl_add (Sums.ofNat before) y
  rw [adler32_of_ne_nil hne, adler32_of_ne_nil hne', toNat_reduce_eq_iff, hxa, hya, hxb, hyb,
    hlength, add_sub_add_left_eq_sub, add_sub_add_left_eq_sub]

/-! ### Changed bytes -/

/-- A changed byte moves the sums by its change, the second as often as its weight says. -/
lemma sums_set (h : i < bytes.length) (c : UInt8) :
    total (bytes.set i c) = total bytes + (c.toNat - bytes[i].toNat) ∧
      weighted (bytes.set i c)
        = weighted bytes + (bytes.length - i) * (c.toNat - bytes[i].toNat) := by
  induction bytes generalizing i with
  | nil => cases h
  | cons b bytes ih =>
    cases i with
    | zero =>
      simp only [List.set_cons_zero, total, weighted, List.getElem_cons_zero, List.length_cons]
      push_cast
      constructor
      · ring
      · ring
    | succ i =>
      obtain ⟨htotal, hweighted⟩ := ih (Nat.lt_of_succ_lt_succ h)
      simp only [List.set_cons_succ, total, weighted, List.getElem_cons_succ, List.length_cons,
        List.length_set, htotal, hweighted]
      push_cast
      constructor
      · ring
      · ring

lemma eq_set_of_differOnce (h : DifferOnce x y) :
    ∃ i, ∃ hi : i < x.length, ∃ c, c ≠ x[i] ∧ y = x.set i c := by
  obtain ⟨hlength, i, hdiffer, hunique⟩ := h
  have hi : i < x.length := by
    by_contra hge
    apply hdiffer
    rw [List.getElem?_eq_none (by omega), List.getElem?_eq_none (by omega)]
  have hiy : i < y.length := by omega
  refine ⟨i, hi, y[i], ?_, List.ext_getElem? fun j => ?_⟩
  · rw [List.getElem?_eq_getElem hi, List.getElem?_eq_getElem hiy] at hdiffer
    exact fun heq => hdiffer (by rw [heq])
  · by_cases hj : i = j
    · subst hj
      rw [List.getElem?_set_self hi, List.getElem?_eq_getElem hiy]
    · rw [List.getElem?_set_ne hj]
      by_contra hne
      exact hj (hunique j fun heq => hne heq.symm).symm

/-- Bytes are too close to each other to differ by a multiple of the modulus. -/
lemma eq_of_modulus_dvd {b c : UInt8} (h : (modulus : ℤ) ∣ (c.toNat : ℤ) - b.toNat) : c = b := by
  have hb := b.toNat_lt
  have hc := c.toNat_lt
  rw [modulus] at h
  exact UInt8.toNat_inj.1 (by omega)

lemma prime_modulus : Nat.Prime modulus := by norm_num [modulus]

/-- The checksum of a string with another byte in one place is another one. -/
theorem adler32_ne_of_differOnce (h : DifferOnce x y) (before : Nat) :
    adler32 before x ≠ adler32 before y := by
  obtain ⟨i, hi, c, hne, rfl⟩ := eq_set_of_differOnce h
  intro heq
  have hnil : x ≠ [] := List.ne_nil_of_length_pos (by omega)
  obtain ⟨htotal, -⟩ := (adler32_eq_iff (by simp) hnil).1 heq
  rw [(sums_set hi c).1, add_sub_cancel_left] at htotal
  exact hne (eq_of_modulus_dvd htotal)

/-- Two exchanged bytes leave the one sum and move the other by their difference times their
distance. -/
lemma sums_of_exchanged (h : Exchanged i j x y) :
    total y = total x ∧ ∃ (hi : i < x.length) (hj : j < x.length), x[i] ≠ x[j] ∧
      weighted y - weighted x = ((x[j].toNat : ℤ) - x[i].toNat) * (j - i) := by
  obtain ⟨hi, hj, hne, rfl⟩ := h
  have hij : i ≠ j := by
    rintro rfl
    exact hne rfl
  have hj' : j < (x.set i x[j]).length := by rwa [List.length_set]
  obtain ⟨htotal, hweighted⟩ := sums_set hi x[j]
  obtain ⟨htotal', hweighted'⟩ := sums_set hj' x[i]
  rw [List.getElem_set_ne hij] at htotal' hweighted'
  rw [List.length_set] at hweighted'
  refine ⟨?_, hi, hj, hne, ?_⟩
  · rw [htotal', htotal]
    ring
  · rw [hweighted', hweighted]
    ring

/-- **Exchanges.** Two different bytes that are exchanged leave the checksum as it is just if their
distance is a multiple of the modulus. -/
theorem adler32_eq_iff_of_exchanged (h : Exchanged i j x y) (before : Nat) :
    adler32 before x = adler32 before y ↔ (modulus : ℤ) ∣ (i : ℤ) - j := by
  obtain ⟨htotal, hi, hj, hne, hweighted⟩ := sums_of_exchanged h
  have hlength : x.length = y.length := by
    obtain ⟨_, _, -, rfl⟩ := h
    simp
  have hnil : x ≠ [] := List.ne_nil_of_length_pos (by omega)
  rw [adler32_eq_iff hlength hnil, htotal, sub_self, hweighted, dvd_sub_comm]
  constructor
  · rintro ⟨-, hdvd⟩
    rcases Int.Prime.dvd_mul' prime_modulus hdvd with hbytes | hdistance
    · exact absurd (eq_of_modulus_dvd hbytes).symm hne
    · exact hdistance
  · exact fun hdistance => ⟨dvd_zero _, Dvd.dvd.mul_left hdistance _⟩

lemma adler32_ne_of_garbled (h : Garbled x y) (before : Nat) :
    adler32 before x ≠ adler32 before y := by
  rcases h with honce | ⟨i, j, hdistance, hexchanged⟩
  · exact adler32_ne_of_differOnce honce before
  · exact fun heq => hdistance ((adler32_eq_iff_of_exchanged hexchanged before).1 heq)

end Checksum

/-! ### Replays -/

def Task.unchecked (task : Task) : Task := { task with checksum := none }

/-- The sections of a window spell commands that, carried out one after the other, make the target.
Nothing is said of a checksum. -/
def Task.Makes (task : Task) (data instructions addresses : Cursor) (cache : AddressCache)
    (target : Bytes) : Prop :=
  ∃ commands ledger, Command.parse? task.table instructions.rest = some commands ∧
    commands.foldlM (Ledger.perform task cache.nearSize cache.sameSize) (.start data addresses)
      = some ledger ∧
    ledger.target = target

namespace Replay

variable {task : Task} {p q : Progress} {expected : Nat} {target : Array UInt8}

/-- A checksum is looked at when the replay ends, and not before. -/
lemma step_of_unchecked_more (h : step task.unchecked p = (.ok true, q)) :
    step task p = (.ok true, q) := by
  rcases hphase : p.phase with _ | _ | _
  · rcases hrest : p.instructions.rest with _ | ⟨opcode, rest⟩
    · rw [step_of_end hphase hrest] at h
      split at h <;> cases h
    · rw [step_of_opcode hphase hrest] at h ⊢
      exact h
  · rw [step_of_done hphase] at h
    cases h
  · rw [step_of_faulted hphase] at h
    cases h

lemma verify_of_mismatch (hverify : verify task.unchecked target = .ok ())
    (hchecksum : task.checksum = some expected)
    (hne : Checksum.adler32 Checksum.initial target.toList ≠ expected) :
    verify task target = .error (.checksumMismatch expected
      (Checksum.adler32 Checksum.initial target.toList)) := by
  have hsize : target.size = task.targetLength := (verify_eq_ok_iff.1 hverify).1
  rw [verify, if_neg (not_not_intro hsize), hchecksum]
  exact if_pos hne

lemma step_of_unchecked_done (h : step task.unchecked p = (.ok false, q))
    (hchecksum : task.checksum = some expected)
    (hne : Checksum.adler32 Checksum.initial q.target.toList ≠ expected) :
    step task p = (.error (.checksumMismatch expected
      (Checksum.adler32 Checksum.initial q.target.toList)), { q with phase := .faulted }) := by
  rcases hphase : p.phase with _ | _ | _
  · rcases hrest : p.instructions.rest with _ | ⟨opcode, rest⟩
    · rw [step_of_end hphase hrest] at h ⊢
      rcases hverify : verify task.unchecked p.target with fault | ⟨⟩
      · rw [hverify] at h
        cases h
      · rw [hverify] at h
        cases h
        rw [verify_of_mismatch hverify hchecksum hne]
    · rw [step_of_opcode hphase hrest] at h
      split at h <;> cases h
  · rw [step_of_done hphase] at h
    cases h
  · rw [step_of_faulted hphase] at h
    cases h

/-- A replay that would end well but for the checksum of its target ends with that fault. -/
lemma run_of_unchecked (h : run task.unchecked p = (.ok target, q))
    (hchecksum : task.checksum = some expected)
    (hne : Checksum.adler32 Checksum.initial target.toList ≠ expected) :
    run task p = (.error (.checksumMismatch expected
      (Checksum.adler32 Checksum.initial target.toList)), { q with phase := .faulted }) := by
  fun_induction run task.unchecked p with
  | case1 p r hstep ih => rw [run_of_more (step_of_unchecked_more hstep), ih h]
  | case2 p r hstep =>
    cases h
    exact run_of_fault (step_of_unchecked_done hstep hchecksum hne)
  | case3 p fault r hstep => cases h

/-- Sections that make a target of the declared length are accepted, if no checksum is asked for. -/
lemma run_unchecked_of_makes {data instructions addresses : Cursor} {cache : AddressCache}
    {y : Bytes} (h : task.Makes data instructions addresses cache y)
    (hlength : y.length = task.targetLength) :
    ∃ q, run task.unchecked (.start data instructions addresses cache) = (.ok y.toArray, q) := by
  obtain ⟨commands, ledger, hparse, hfold, rfl⟩ := h
  have hverify : verify task.unchecked ledger.target.toArray = .ok () :=
    verify_eq_ok_iff.2 ⟨hlength, fun _ hnone => by cases hnone⟩
  have hends : ∃ q, run task.unchecked (.start data instructions addresses cache)
      = (.ok ledger.target.toArray, q) ∧ q.data = ledger.data ∧ q.addresses = ledger.addresses :=
    (run_iff_of_shows (shows_start data instructions addresses cache)).2
      ⟨commands, ledger, hparse, hfold, hverify, rfl, rfl, rfl⟩
  obtain ⟨q, hrun, -, -⟩ := hends
  exact ⟨q, hrun⟩

/-- **Detection.** A garbled string has another checksum. So a window that carries the checksum of
one string, but whose sections make a garbled one, is refused for its checksum, and its replay is
faulted. -/
theorem checksumMismatch_of_garbled {x y : Bytes} (h : Checksum.Garbled x y) :
    (∀ before, Checksum.adler32 before x ≠ Checksum.adler32 before y) ∧
      ∀ (task : Task) (data instructions addresses : Cursor) (cache : AddressCache),
        task.checksum = some (Checksum.adler32 Checksum.initial x) →
        task.Makes data instructions addresses cache y → y.length = task.targetLength →
        let (result, q) := run task (.start data instructions addresses cache)
        result = .error (.checksumMismatch (Checksum.adler32 Checksum.initial x)
          (Checksum.adler32 Checksum.initial y)) ∧ q.phase = .faulted := by
  have hne := Checksum.adler32_ne_of_garbled h
  refine ⟨hne, fun task data instructions addresses cache hchecksum hmakes hlength => ?_⟩
  obtain ⟨q, hrun⟩ := run_unchecked_of_makes hmakes hlength
  rw [run_of_unchecked hrun hchecksum (hne Checksum.initial).symm]
  exact ⟨rfl, rfl⟩

/-- An ADD and a COPY make a target in which the two middle bytes have changed places. -/
theorem checksumMismatch_of_garbled_middle :
    let task : Task := ⟨.default, #[], 4, some 0x4d001f⟩
    let data := Cursor.ofSection "data section" 0 [7, 8]
    let instructions := Cursor.ofSection "instructions section" 2 [3, 19, 2]
    let addresses := Cursor.ofSection "addresses section" 5 [0]
    Checksum.Garbled [7, 7, 8, 8] [7, 8, 7, 8] ∧
      Checksum.adler32 Checksum.initial [7, 7, 8, 8] = 0x4d001f ∧
      Checksum.adler32 Checksum.initial [7, 8, 7, 8] = 0x4e001f ∧
      task.Makes data instructions addresses (.empty 4 3) [7, 8, 7, 8] ∧
      let (result, q) := run task (.start data instructions addresses (.empty 4 3))
      result = .error (.checksumMismatch 0x4d001f 0x4e001f) ∧ q.phase = .faulted := by
  intro task data instructions addresses
  have hgarbled : Checksum.Garbled [7, 7, 8, 8] [7, 8, 7, 8] :=
    .inr ⟨1, 2, by decide, by decide, by decide, by decide, rfl⟩
  have hx : Checksum.adler32 Checksum.initial [7, 7, 8, 8] = 0x4d001f := by decide +kernel
  have hy : Checksum.adler32 Checksum.initial [7, 8, 7, 8] = 0x4e001f := by decide +kernel
  have hmakes : task.Makes data instructions addresses (.empty 4 3) [7, 8, 7, 8] :=
    ⟨[.add 2, .copy 0 2], _, by decide +kernel, rfl, by decide +kernel⟩
  have hrun := (checksumMismatch_of_garbled hgarbled).2 task data instructions addresses
    (.empty 4 3) (congrArg some hx.symm) hmakes rfl
  rw [hx, hy] at hrun
  exact ⟨hgarbled, hx, hy, hmakes, hrun⟩

end Replay

end Vcdiff
