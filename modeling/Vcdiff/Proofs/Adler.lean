import Mathlib.Tactic.Common
import Vcdiff.Checksum

/-!
The checksum with both sums reduced after every byte, which is how it is defined. That reducing
once a block comes to the same is what makes the blocks sound. It also makes them invisible: a
checksum may be continued at any byte, as long as its sums are read back as they were written.
-/

namespace Vcdiff.Checksum

namespace Sums

def addReduced (s : Sums) (byte : UInt8) : Sums := (s.add byte).reduce

lemma addReduced_reduce (s : Sums) (byte : UInt8) :
    s.reduce.addReduced byte = s.addReduced byte := by
  simp only [addReduced, add, reduce, modulus, Sums.mk.injEq]
  omega

/-- The sums may be reduced at the end as well as all along. -/
lemma reduce_foldl_add (s : Sums) (bytes : Bytes) :
    (bytes.foldl add s).reduce = bytes.foldl addReduced s.reduce := by
  induction bytes generalizing s with
  | nil => rfl
  | cons b bytes ih => rw [List.foldl_cons, List.foldl_cons, ih, addReduced_reduce, addReduced]

lemma addBlock_eq {s : Sums} {block : Bytes} (h : block ≠ []) :
    s.addBlock block = block.foldl addReduced s := by
  cases block with
  | nil => exact absurd rfl h
  | cons b block =>
    rw [addBlock, List.foldl_cons, List.foldl_cons, reduce_foldl_add, addReduced]

/-- **Blocks.** Summing block by block is summing byte by byte. -/
theorem addBlocks_eq (s : Sums) (bytes : Bytes) : s.addBlocks bytes = bytes.foldl addReduced s := by
  fun_induction addBlocks s bytes with
  | case1 s bytes hempty => rw [List.isEmpty_iff.1 hempty, List.foldl_nil]
  | case2 s bytes hne ih =>
    have hblock : bytes.take blockSize ≠ [] := by
      simpa [blockSize] using hne
    rw [ih, addBlock_eq hblock, ← List.foldl_append, List.take_append_drop]

/-- Each sum fits in its half of a checksum. Reduced sums do, but those that a checksum holds need
not be reduced. -/
structure Fits (s : Sums) : Prop where
  a_lt : s.a < 65536
  b_lt : s.b < 65536

lemma fits_ofNat (checksum : Nat) : (ofNat checksum).Fits :=
  ⟨Nat.mod_lt _ (by decide), Nat.mod_lt _ (by decide)⟩

lemma fits_reduce (s : Sums) : s.reduce.Fits :=
  ⟨Nat.lt_trans (Nat.mod_lt _ (by decide)) (by decide),
    Nat.lt_trans (Nat.mod_lt _ (by decide)) (by decide)⟩

lemma Fits.foldl_addReduced {s : Sums} (h : s.Fits) (bytes : Bytes) :
    (bytes.foldl addReduced s).Fits := by
  induction bytes generalizing s with
  | nil => exact h
  | cons b bytes ih => exact ih (fits_reduce _)

/-- Sums that fit are read back from the checksum that they make. -/
lemma Fits.ofNat_toNat {s : Sums} (h : s.Fits) : ofNat s.toNat = s := by
  obtain ⟨ha, hb⟩ := h
  rcases s with ⟨a, b⟩
  simp only [ofNat, toNat, Sums.mk.injEq] at ha hb ⊢
  omega

end Sums

/-- The checksum with both sums reduced after every byte. -/
def plain (before : Nat) (bytes : Bytes) : Nat :=
  (bytes.foldl Sums.addReduced (Sums.ofNat before)).toNat

theorem adler32_eq_plain (before : Nat) (bytes : Bytes) :
    adler32 before bytes = plain before bytes := by
  rw [adler32, Sums.addBlocks_eq, plain]

/-- A checksum is continued from what it holds. -/
lemma plain_append (before : Nat) (u v : Bytes) :
    plain before (u ++ v) = plain (plain before u) v := by
  have hfits := (Sums.fits_ofNat before).foldl_addReduced u
  rw [plain, plain, plain, List.foldl_append, hfits.ofNat_toNat]

/-- **Continuation.** The checksum of a region is the one that reduces both sums after every byte,
from the halves of the checksum before it; where there are no bytes, it is that checksum itself.
And it may be taken in two parts, wherever those meet. -/
theorem adler32Between_eq_plain {before start stop : Nat} {bytes : Bytes}
    (hbefore : before < 4294967296) (hstart : start ≤ stop) (hstop : stop ≤ bytes.length) :
    adler32Between before bytes start stop = plain before (bytes.between start stop) ∧
      (start = stop → adler32Between before bytes start stop = before) ∧
      ∀ m : Nat, start ≤ m → m ≤ stop →
        adler32Between (adler32Between before bytes start m) bytes m stop
          = adler32Between before bytes start stop := by
  have hplain (before start : Nat) {stop : Nat} (hstop : stop ≤ bytes.length) :
      adler32Between before bytes start stop = plain before (bytes.between start stop) := by
    rw [adler32Between_of_le before hstop, adler32_eq_plain]
  refine ⟨hplain before start hstop, ?_, fun m hm hle => ?_⟩
  · rintro rfl
    rw [adler32Between_of_le before hstop, Bytes.between_self, adler32_nil hbefore]
  · rw [hplain before start (Nat.le_trans hle hstop), hplain _ m hstop, hplain before start hstop,
      ← Bytes.between_append_between hm hle, plain_append]

/-- The halves of the checksum before are not reduced, and the region goes beyond a block. -/
theorem adler32Between_eq_plain_unreduced :
    let bytes : Bytes := List.replicate 6000 0xff
    adler32Between 0xfff5fff3 bytes 1 5999 = 0x93457ed ∧
      adler32Between 0xfff5fff3 bytes 7 7 = 0xfff5fff3 ∧
      adler32Between (adler32Between 0xfff5fff3 bytes 1 3000) bytes 3000 5999 = 0x93457ed := by
  intro bytes
  have hlength : bytes.length = 6000 := List.length_replicate
  obtain ⟨hall, -, hparts⟩ := @adler32Between_eq_plain 0xfff5fff3 1 5999 bytes (by decide)
    (by decide) (by omega)
  obtain ⟨-, hnone, -⟩ := @adler32Between_eq_plain 0xfff5fff3 7 7 bytes (by decide)
    (by decide) (by omega)
  have hvalue : plain 0xfff5fff3 (bytes.between 1 5999) = 0x93457ed := by decide +kernel
  exact ⟨hall.trans hvalue, hnone rfl, (hparts 3000 (by decide) (by decide)).trans
    (hall.trans hvalue)⟩

end Vcdiff.Checksum
