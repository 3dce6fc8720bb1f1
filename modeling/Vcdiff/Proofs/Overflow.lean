import Mathlib.Tactic.Ring
import Vcdiff.Proofs.Adler

/-!
The checksum in 32-bit words. Until they are reduced the sums only grow, and the second of them with
the square of the number of bytes. A block is as long as it can be without a sum outgrowing a word.

The loop is written here with a store, to which it hands each value of a sum and whose answer it
goes on with. A store may refuse what is too large for a word, or wrap it around. As long as it
keeps what fits in a word, it makes no difference (`adler32BetweenBy_eq_pure`), since nothing else
is ever handed to it.
-/

namespace Vcdiff.Checksum

def maxWord : Nat := 4294967295

/-- Refuses what does not fit in 32 bits. -/
def checked (n : Nat) : Option Nat := if n ≤ maxWord then some n else none

lemma checked_eq_some_iff {n k : Nat} : checked n = some k ↔ n ≤ maxWord ∧ n = k := by
  rw [checked, Option.ite_none_right_eq_some, Option.some_inj]

/-- Keeps the lowest 32 bits. -/
def wrapped (n : Nat) : Id Nat := pure (n % (maxWord + 1))

/-! ### The loop with a store -/

section Store

variable {m : Type → Type} [Monad m] (store : Nat → m Nat)

namespace Sums

/-- Adds one byte, and stores each sum as soon as it is computed. -/
def addBy (s : Sums) (byte : UInt8) : m Sums := do
  let a ← store (s.a + byte.toNat)
  let b ← store (s.b + a)
  return ⟨a, b⟩

def addBlocksBy (s : Sums) (bytes : Bytes) : m Sums :=
  if bytes.isEmpty then pure s
  else do
    let t ← (bytes.take blockSize).foldlM (addBy store) s
    addBlocksBy t.reduce (bytes.drop blockSize)
termination_by bytes.length
decreasing_by
  rename_i h
  have := List.length_pos_iff.2 (fun e => h (List.isEmpty_iff.2 e))
  simp only [List.length_drop, blockSize]
  omega

end Sums

def adler32By (before : Nat) (bytes : Bytes) : m Nat := do
  let s ← (Sums.ofNat before).addBlocksBy store bytes
  return s.toNat

/-- The checksum of the bytes from `start` to `stop`, computed with a store. For a part that reaches
beyond the bytes there is nothing to compute. -/
def adler32BetweenBy (before : Nat) (bytes : Bytes) (start stop : Int) : m Nat :=
  if start < stop ∧ (start < 0 ∨ (bytes.length : Int) < stop) then pure 0
  else adler32By store before (bytes.between start.toNat stop.toNat)

end Store

/-! ### How far the sums grow -/

namespace Sums

variable {s : Sums} {k : Nat}

/-- As far as the sums can have grown `k` bytes after each of them fitted in its half of a
checksum. -/
structure Grown (k : Nat) (s : Sums) : Prop where
  a_le : s.a ≤ 65535 + 255 * k
  b_le : 2 * s.b ≤ 2 * 65535 * (k + 1) + 255 * (k * (k + 1))

lemma Fits.grown (h : s.Fits) : s.Grown 0 := by
  obtain ⟨ha, hb⟩ := h
  constructor
  · omega
  · omega

lemma Grown.add (h : s.Grown k) (byte : UInt8) : (s.add byte).Grown (k + 1) := by
  obtain ⟨ha, hb⟩ := h
  have hbyte := byte.toNat_lt
  have hsquare : (k + 1) * (k + 1 + 1) = k * (k + 1) + 2 * (k + 1) := by ring
  constructor
  · simp only [Sums.add]
    omega
  · rw [hsquare]
    simp only [Sums.add]
    omega

/-- Within a block the sums fit in words. -/
lemma Grown.le_maxWord (h : s.Grown k) (hk : k ≤ blockSize) : s.a ≤ maxWord ∧ s.b ≤ maxWord := by
  obtain ⟨ha, hb⟩ := h
  have hsquare : k * (k + 1) ≤ blockSize * (blockSize + 1) := Nat.mul_le_mul hk (by omega)
  simp only [blockSize, maxWord] at hk hsquare ⊢
  omega

end Sums

/-! ### Stores that keep words -/

section Store

variable {m : Type → Type} [Monad m] {store : Nat → m Nat}

/-- The store gives back unchanged whatever fits in 32 bits. -/
def KeepsWords (store : Nat → m Nat) : Prop := ∀ n ≤ maxWord, store n = pure n

lemma keepsWords_pure : KeepsWords (pure : Nat → m Nat) := fun _ _ => rfl

lemma keepsWords_checked : KeepsWords checked := fun _ hn => if_pos hn

lemma keepsWords_wrapped : KeepsWords wrapped := fun _ hn =>
  congrArg pure (Nat.mod_eq_of_lt (Nat.lt_succ_of_le hn))

namespace Sums

variable [LawfulMonad m] {s : Sums} {k : Nat} {block bytes : Bytes}

lemma addBy_eq_pure (hstore : KeepsWords store) {byte : UInt8} (ha : (s.add byte).a ≤ maxWord)
    (hb : (s.add byte).b ≤ maxWord) : s.addBy store byte = pure (s.add byte) := by
  rw [addBy, hstore (s.a + byte.toNat) ha, pure_bind, hstore (s.b + (s.a + byte.toNat)) hb,
    pure_bind, add]

/-- Through a block, from sums that have been added to for `k` bytes already. -/
lemma foldlM_addBy (hstore : KeepsWords store) (h : s.Grown k)
    (hk : k + block.length ≤ blockSize) :
    block.foldlM (addBy store) s = pure (block.foldl add s) := by
  induction block generalizing s k with
  | nil => rfl
  | cons byte block ih =>
    rw [List.length_cons] at hk
    have hnext := h.add byte
    obtain ⟨ha, hb⟩ := hnext.le_maxWord (by omega)
    rw [List.foldlM_cons, addBy_eq_pure hstore ha hb, pure_bind, ih hnext (by omega),
      List.foldl_cons]

/-- Across blocks: what is reduced fits in the halves of a checksum again. -/
lemma addBlocksBy_eq_pure (hstore : KeepsWords store) (h : s.Fits) :
    s.addBlocksBy store bytes = pure (s.addBlocks bytes) := by
  fun_induction addBlocks s bytes with
  | case1 s bytes hempty => rw [addBlocksBy, if_pos hempty]
  | case2 s bytes hne ih =>
    have hlength : 0 + (bytes.take blockSize).length ≤ blockSize := by
      rw [Nat.zero_add]
      exact List.length_take_le _ _
    rw [addBlocksBy, if_neg hne, foldlM_addBy hstore h.grown hlength, pure_bind]
    exact ih (fits_reduce _)

end Sums

/-- A store that keeps words makes no difference. -/
theorem adler32BetweenBy_eq_pure [LawfulMonad m] (hstore : KeepsWords store) (before : Nat)
    (bytes : Bytes) (start stop : Int) :
    adler32BetweenBy store before bytes start stop
      = pure (adler32Between before bytes start stop) := by
  rw [adler32BetweenBy, adler32Between]
  split
  · rfl
  · rw [adler32By, Sums.addBlocksBy_eq_pure hstore (Sums.fits_ofNat before), pure_bind, adler32]

end Store

/-! ### The longest block -/

namespace Sums

variable {s t : Sums} {block : Bytes}

lemma addBy_checked_eq_some_iff {byte : UInt8} :
    s.addBy checked byte = some t ↔ t = s.add byte ∧ t.a ≤ maxWord ∧ t.b ≤ maxWord := by
  constructor
  · intro h
    obtain ⟨a, ha, hrest⟩ := Option.bind_eq_some_iff.1 h
    obtain ⟨b, hb, ht⟩ := Option.bind_eq_some_iff.1 hrest
    obtain ⟨hale, rfl⟩ := checked_eq_some_iff.1 ha
    obtain ⟨hble, rfl⟩ := checked_eq_some_iff.1 hb
    cases ht
    exact ⟨rfl, hale, hble⟩
  · rintro ⟨rfl, ha, hb⟩
    exact addBy_eq_pure keepsWords_checked ha hb

/-- What is not refused is exact, and fits in a word. -/
lemma exact_of_foldlM_checked (hs : s.b ≤ maxWord) (h : block.foldlM (addBy checked) s = some t) :
    t = block.foldl add s ∧ t.b ≤ maxWord := by
  induction block generalizing s with
  | nil =>
    cases h
    exact ⟨rfl, hs⟩
  | cons byte block ih =>
    rw [List.foldlM_cons] at h
    obtain ⟨u, hu, hrest⟩ := Option.bind_eq_some_iff.1 h
    obtain ⟨rfl, -, hb⟩ := addBy_checked_eq_some_iff.1 hu
    exact ih hb hrest

/-- What the second sum comes to over bytes that are as large as they can be. -/
lemma foldl_add_replicate (s : Sums) (n : Nat) :
    2 * ((List.replicate n 255).foldl add s).b
      = 2 * s.b + 2 * (n * s.a) + 255 * (n * (n + 1)) := by
  induction n generalizing s with
  | zero => simp
  | succ n ih =>
    have hbyte : (255 : UInt8).toNat = 255 := rfl
    rw [List.replicate_succ, List.foldl_cons, ih]
    simp only [add, hbyte]
    ring

end Sums

/-- **The longest block.** From reduced sums, none of the values is too large for 32 bits as long as
there are no more bytes than in a block. With one byte more, some may be. -/
theorem isSome_foldlM_checked_iff (n : Nat) :
    (∀ (s : Sums) (block : Bytes), block.length ≤ n →
      (block.foldlM (Sums.addBy checked) s.reduce).isSome) ↔ n ≤ blockSize := by
  constructor
  · intro h
    -- from the largest sums that are reduced, over bytes that are the largest there are
    have hlength : (List.replicate n (255 : UInt8)).length ≤ n := List.length_replicate.le
    obtain ⟨t, ht⟩ := Option.isSome_iff_exists.1 (h ⟨65520, 65520⟩ _ hlength)
    obtain ⟨hexact, hfits⟩ := Sums.exact_of_foldlM_checked (by decide) ht
    have hvalue := Sums.foldl_add_replicate (Sums.reduce ⟨65520, 65520⟩) n
    rw [← hexact] at hvalue
    simp only [Sums.reduce, modulus, maxWord] at hfits hvalue
    by_contra hlt
    rw [blockSize] at hlt
    have hsquare : 5553 * 5554 ≤ n * (n + 1) := Nat.mul_le_mul (by omega) (by omega)
    omega
  · intro hn s block hlength
    have hgrown := (Sums.fits_reduce s).grown
    rw [Sums.foldlM_addBy keepsWords_checked hgrown (by omega)]
    rfl

/-- **Words.** No value of a sum is refused for being too large for 32 bits, and wrapping every one
of them around changes nothing: either way the loop comes to the checksum, as it does when it keeps
them all as they are. The checksum before may be any, its halves reduced or not. -/
theorem adler32Between_in_words (before : Nat) (bytes : Bytes) (start stop : Int) :
    Id.run (adler32BetweenBy pure before bytes start stop)
        = adler32Between before bytes start stop ∧
      adler32BetweenBy checked before bytes start stop
        = some (adler32Between before bytes start stop) ∧
      Id.run (adler32BetweenBy wrapped before bytes start stop)
        = adler32Between before bytes start stop := by
  refine ⟨?_, ?_, ?_⟩
  · rw [adler32BetweenBy_eq_pure keepsWords_pure, Id.run_pure]
  · exact adler32BetweenBy_eq_pure keepsWords_checked before bytes start stop
  · rw [adler32BetweenBy_eq_pure keepsWords_wrapped, Id.run_pure]

end Vcdiff.Checksum
