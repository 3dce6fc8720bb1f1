import Vcdiff.Proofs.History

/-!
Writing addresses. An encoder mirrors the cache in the addresses that it has written so far, and
for each address picks any mode that can be used for it. A decoder that is asked in the same modes
gives the addresses back, and takes just the bytes that were written: each address leaves both
sides with the same memory, which is what the next one is written relative to.
-/

namespace Vcdiff

/-- An address to be written, the position that it lies before, and the mode picked for it. -/
structure Reference (nearSize sameSize : Nat) where
  here : Nat
  address : Fin here
  mode : AddressMode nearSize sameSize

namespace Reference

variable {nearSize sameSize : Nat}

/-- The address can be written in its mode, after these addresses. -/
def Usable (history : History) (r : Reference nearSize sameSize) : Prop :=
  match r.mode with
  | .self => True
  | .here => True
  | .near slot => history.near nearSize slot ≤ r.address
  | .same block =>
    history.same sameSize (r.address % (256 * sameSize)) = r.address ∧
      block.val = r.address % (256 * sameSize) / 256

instance decidableUsable (history : History) :
    (r : Reference nearSize sameSize) → Decidable (r.Usable history)
  | ⟨_, _, .self⟩ => .isTrue trivial
  | ⟨_, _, .here⟩ => .isTrue trivial
  | ⟨_, address, .near slot⟩ =>
    inferInstanceAs (Decidable (history.near nearSize slot ≤ address.val))
  | ⟨_, address, .same block⟩ =>
    inferInstanceAs (Decidable (
      history.same sameSize (address.val % (256 * sameSize)) = address.val ∧
        block.val = address.val % (256 * sameSize) / 256))

def number (history : History) (r : Reference nearSize sameSize) : Nat :=
  match r.mode with
  | .self => r.address
  | .here => r.here - r.address
  | .near slot => r.address - history.near nearSize slot
  | .same _ => r.address % 256

def write (history : History) (r : Reference nearSize sameSize) : Bytes :=
  match r.mode with
  | .same _ => [UInt8.ofNat (r.number history)]
  | _ => Varint.write (r.number history)

/-- Each address can be written in its mode, and the number for it is one that a delta may
state. -/
def AllUsable (history : History) : List (Reference nearSize sameSize) → Prop
  | [] => True
  | r :: rs =>
    r.Usable history ∧ r.number history ≤ Varint.maxValue ∧ AllUsable (r.address.val :: history) rs

instance decidableAllUsable :
    (history : History) → (rs : List (Reference nearSize sameSize)) →
      Decidable (AllUsable history rs)
  | _, [] => .isTrue trivial
  | history, r :: rs =>
    have := decidableAllUsable (r.address.val :: history) rs
    inferInstanceAs (Decidable (r.Usable history ∧ r.number history ≤ Varint.maxValue ∧
      AllUsable (r.address.val :: history) rs))

def writeAll (history : History) : List (Reference nearSize sameSize) → Bytes
  | [] => []
  | r :: rs => r.write history ++ writeAll (r.address.val :: history) rs

def request (r : Reference nearSize sameSize) : Nat × Nat := (r.here, r.mode.toNat)

end Reference

namespace AddressCache

def decodeAll (c : AddressCache) :
    List (Nat × Nat) → Cursor → Except Fault (List Nat) × AddressCache × Cursor
  | [], addresses => (.ok [], c, addresses)
  | (here, mode) :: requests, addresses =>
    match c.decode here mode addresses with
    | (.error fault, c, addresses) => (.error fault, c, addresses)
    | (.ok address, c, addresses) =>
      match c.decodeAll requests addresses with
      | (.error fault, c, addresses) => (.error fault, c, addresses)
      | (.ok more, c, addresses) => (.ok (address.val :: more), c, addresses)

section Write

variable {nearSize sameSize : Nat} {history : History} {r : Reference nearSize sameSize}
  {rs : List (Reference nearSize sameSize)}

/-- What an encoder writes is one of the forms of the address. -/
lemma form_write (husable : r.Usable history) (hfits : r.number history ≤ Varint.maxValue) :
    AddressForm nearSize sameSize history r.here r.address r.mode.toNat (r.write history) := by
  obtain ⟨here, address, mode⟩ := r
  cases mode with
  | self => exact .self (Varint.written_write hfits)
  | here => exact .here (Varint.written_write hfits)
  | near slot => exact .near slot.isLt husable (Varint.written_write hfits)
  | same block =>
    obtain ⟨hsame, hblock⟩ := husable
    dsimp only at hsame hblock
    have hbyte : (UInt8.ofNat (address.val % 256)).toNat = address.val % 256 := by simp
    have hindex : 256 * block.val + (UInt8.ofNat (address.val % 256)).toNat
        = address.val % (256 * sameSize) := by
      rw [hbyte, hblock, ← Nat.mod_mul_right_mod address.val 256 sameSize]
      exact Nat.div_add_mod _ 256
    exact .same (UInt8.ofNat (address.val % 256)) block.isLt (by rw [hindex, hsame])

/-- Encoder and decoder stay in step, whatever addresses there were before. -/
lemma decodeAll_of_allUsable {c : AddressCache} {addresses : Cursor} {rest : Bytes}
    (h : Reference.AllUsable history rs) (hmirrors : Mirrors c history)
    (hnear : c.nearSize = nearSize) (hsame : c.sameSize = sameSize)
    (hrest : addresses.rest = Reference.writeAll history rs ++ rest) :
    ∃ cache, cache.Mirrors ((rs.map (·.address.val)).reverse ++ history) ∧
      c.decodeAll (rs.map Reference.request) addresses = (.ok (rs.map (·.address.val)), cache,
        { addresses with
          position := addresses.position + (Reference.writeAll history rs).length, rest }) := by
  induction rs generalizing c history addresses with
  | nil =>
    refine ⟨c, hmirrors, ?_⟩
    rw [Reference.writeAll, List.nil_append] at hrest
    rw [← hrest]
    rfl
  | cons r rs ih =>
    obtain ⟨husable, hfits, h⟩ := h
    rw [Reference.writeAll, List.append_assoc] at hrest
    have hform : AddressForm c.nearSize c.sameSize history r.here r.address r.mode.toNat
        (r.write history) := by
      rw [hnear, hsame]
      exact form_write husable hfits
    obtain ⟨left, hleft⟩ : ∃ left : Cursor, left = { addresses with
      position := addresses.position + (r.write history).length
      rest := Reference.writeAll (r.address.val :: history) rs ++ rest } := ⟨_, rfl⟩
    have hdecode := decode_of_form hmirrors r.address.isLt hform hrest
    obtain ⟨cache, hcache, hdecodeAll⟩ :=
      ih h (hmirrors.insert r.address) hnear hsame (congrArg Cursor.rest hleft)
    refine ⟨cache, by simpa using hcache, ?_⟩
    rw [List.map_cons, Reference.request, decodeAll, hdecode, ← hleft]
    dsimp only
    rw [hdecodeAll, hleft]
    simp [Reference.writeAll, Nat.add_assoc]

/-- **Addresses in sequence.** Whatever modes an encoder picks, a decoder that is asked in these
modes gives all of the addresses back and takes just the bytes written for them; then its cache
holds what the encoder remembers. -/
theorem decodeAll_writeAll {refs : List (Reference nearSize sameSize)}
    (h : Reference.AllUsable [] refs) (label : String) (start position : Nat) (rest : Bytes) :
    ∃ cache, cache.Mirrors (refs.map (·.address.val)).reverse ∧
      (empty nearSize sameSize).decodeAll (refs.map Reference.request)
          ⟨label, start, position, Reference.writeAll [] refs ++ rest⟩
        = (.ok (refs.map (·.address.val)), cache,
          ⟨label, start, position + (Reference.writeAll [] refs).length, rest⟩) := by
  obtain ⟨cache, hcache, hdecodeAll⟩ := @decodeAll_of_allUsable nearSize sameSize [] refs
    (empty nearSize sameSize) ⟨label, start, position, Reference.writeAll [] refs ++ rest⟩ rest h
    (mirrors_clear (empty nearSize sameSize)) rfl rfl rfl
  exact ⟨cache, by rwa [List.append_nil] at hcache, hdecodeAll⟩

end Write

def fourReferences : List (Reference 1 1) :=
  [⟨1000, 500, .self⟩, ⟨1000, 500, .same 0⟩, ⟨2000, 600, .near 0⟩, ⟨2000, 1900, .here⟩]

theorem decodeAll_writeAll_fourReferences :
    Reference.AllUsable [] fourReferences ∧
      ∃ cache, cache.Mirrors [1900, 600, 500, 500] ∧
        (empty 1 1).decodeAll [(1000, 0), (1000, 3), (2000, 2), (2000, 1)]
            ⟨"addresses section", 0, 0, [0x83, 0x74, 244, 100, 100] ++ [7]⟩
          = (.ok [500, 500, 600, 1900], cache, ⟨"addresses section", 0, 5, [7]⟩) := by
  have husable : Reference.AllUsable [] fourReferences := by decide
  have hbytes : Reference.writeAll [] fourReferences = [0x83, 0x74, 244, 100, 100] := by
    decide +kernel
  obtain ⟨cache, hcache, hdecodeAll⟩ := decodeAll_writeAll husable "addresses section" 0 0 [7]
  rw [hbytes] at hdecodeAll
  exact ⟨husable, cache, hcache, hdecodeAll⟩

end AddressCache

end Vcdiff
