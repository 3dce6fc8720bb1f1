import Vcdiff.AddressCache
import Vcdiff.Proofs.Varint

/-!
The address cache as what it is for: a memory of the addresses so far. A slot of the ring holds
the last of every so many of them, a slot of the other half the last with its residue. An address
is written relative to that memory, and decoding its bytes gives it back.
-/

namespace Vcdiff

/-- The addresses so far, the newest first. -/
abbrev History := List Nat

namespace History

def next (nearSize : Nat) (history : History) : Nat :=
  if nearSize = 0 then 0 else history.length % nearSize

@[simp] lemma next_nil (nearSize : Nat) : next nearSize [] = 0 := by
  simp [next]

/-- The last address whose number in the order of time has the residue `slot`, or zero. -/
def near (nearSize slot : Nat) : History → Nat
  | [] => 0
  | address :: earlier =>
    if earlier.length % nearSize = slot then address else near nearSize slot earlier

/-- The last address that has the residue `index` itself, or zero. -/
def same (sameSize index : Nat) : History → Nat
  | [] => 0
  | address :: earlier =>
    if address % (256 * sameSize) = index then address else same sameSize index earlier

end History

namespace Cursor

variable {c : Cursor} {bytes rest : Bytes}

lemma readVarint_of_written {n : Nat} (h : Varint.Written n bytes)
    (hrest : c.rest = bytes ++ rest) :
    readVarint Varint.maxValue c
      = .ok (n, { c with position := c.position + bytes.length, rest }) := by
  rw [readVarint, hrest, Varint.scan_written h]

lemma readByte_of_cons {b : UInt8} (hrest : c.rest = b :: rest) :
    readByte c = .ok (b, { c with position := c.position + 1, rest }) := by
  rw [readByte, hrest]

lemma readBytes_of_append (hrest : c.rest = bytes ++ rest) :
    readBytes bytes.length c
      = .ok (bytes, { c with position := c.position + bytes.length, rest }) := by
  rw [readBytes_of_le (by simp [hrest]), hrest, List.take_left, List.drop_left]

end Cursor

namespace AddressCache

variable {c : AddressCache} {history : History} {here address : Nat}

structure Mirrors (c : AddressCache) (history : History) : Prop where
  next : c.next = history.next c.nearSize
  near : ∀ slot : Fin c.nearSize, c.near.get slot = history.near c.nearSize slot
  same : ∀ (index : Nat) (h : index < 256 * c.sameSize),
    c.same[index] = history.same c.sameSize index

lemma mirrors_clear (c : AddressCache) : Mirrors c.clear [] where
  next := by simp [clear, empty]
  near slot := by simp [clear, empty, History.near, Vector.get]
  same index h := by simp [clear, empty, History.same]

/-- **The cache remembers.** One more address, and it still holds what it should. -/
theorem Mirrors.insert (h : Mirrors c history) (address : Nat) :
    Mirrors (c.insert address) (address :: history) where
  next := by
    show c.following = History.next c.nearSize (address :: history)
    rw [following, h.next, History.next, History.next, List.length_cons]
    split
    · rfl
    · exact Nat.mod_add_mod _ _ _
  near slot := by
    show (c.near.setIfInBounds c.next address).get slot
      = History.near c.nearSize slot (address :: history)
    have hslot := h.near slot
    have hne : c.nearSize ≠ 0 := Nat.ne_of_gt slot.pos
    have hnext : history.length % c.nearSize = c.next := by
      rw [h.next, History.next, if_neg hne]
    rw [History.near, hnext, ← hslot]
    exact Vector.getElem_setIfInBounds slot.isLt
  same index hindex := by
    show (c.same.setIfInBounds (address % (256 * c.sameSize)) address)[index]
      = History.same c.sameSize index (address :: history)
    rw [History.same, ← h.same index hindex]
    exact Vector.getElem_setIfInBounds hindex

/-! ### Written addresses -/

/-- The bytes write the address in a mode that can be used for it. -/
inductive AddressForm (nearSize sameSize : Nat) (history : History) (here address : Nat) :
    Nat → Bytes → Prop
  | self {bytes : Bytes} (h : Varint.Written address bytes) :
    AddressForm nearSize sameSize history here address AddressMode.selfCode bytes
  | here {bytes : Bytes} (h : Varint.Written (here - address) bytes) :
    AddressForm nearSize sameSize history here address AddressMode.hereCode bytes
  | near {slot : Nat} {bytes : Bytes} (hslot : slot < nearSize)
    (hle : history.near nearSize slot ≤ address)
    (h : Varint.Written (address - history.near nearSize slot) bytes) :
    AddressForm nearSize sameSize history here address (2 + slot) bytes
  | same {block : Nat} (byte : UInt8) (hblock : block < sameSize)
    (h : history.same sameSize (256 * block + byte.toNat) = address) :
    AddressForm nearSize sameSize history here address (2 + nearSize + block) [byte]

/-- What the addresses section gives for an address that is written in a mode. -/
lemma read_of_form {mode : Nat} {bytes rest : Bytes} {addresses : Cursor}
    (hmirrors : Mirrors c history) (hlt : address < here)
    (hform : AddressForm c.nearSize c.sameSize history here address mode bytes)
    (hrest : addresses.rest = bytes ++ rest) :
    ∃ m : AddressMode c.nearSize c.sameSize,
      AddressMode.ofNat? c.nearSize c.sameSize mode = some m ∧ c.read here m addresses
        = .ok ((address : Int),
          { addresses with position := addresses.position + bytes.length, rest }) := by
  cases hform with
  | self h =>
    refine ⟨.self, AddressMode.ofNat?_toNat .self, ?_⟩
    show Except.bind (Cursor.readVarint Varint.maxValue addresses) _ = _
    rw [Cursor.readVarint_of_written h hrest]
    rfl
  | here h =>
    refine ⟨.here, AddressMode.ofNat?_toNat .here, ?_⟩
    have hnumber : (here : Int) - (here - address : Nat) = address := by omega
    show Except.bind (Cursor.readVarint Varint.maxValue addresses) _ = _
    rw [Cursor.readVarint_of_written h hrest]
    exact congrArg (fun number : Int => Except.ok (number, _)) hnumber
  | @near slot _ hslot hle h =>
    refine ⟨.near ⟨slot, hslot⟩, AddressMode.ofNat?_toNat (.near ⟨slot, hslot⟩), ?_⟩
    have hnumber : c.near.get ⟨slot, hslot⟩ + (address - history.near c.nearSize slot)
        = address := by
      rw [hmirrors.near]
      exact Nat.add_sub_cancel' hle
    show Except.bind (Cursor.readVarint Varint.maxValue addresses) _ = _
    rw [Cursor.readVarint_of_written h hrest]
    exact congrArg (fun number : Nat => Except.ok ((number : Int), _)) hnumber
  | @same block byte hblock h =>
    refine ⟨.same ⟨block, hblock⟩, AddressMode.ofNat?_toNat (.same ⟨block, hblock⟩), ?_⟩
    have hbyte := byte.toNat_lt
    have hnumber : c.same[256 * block + byte.toNat] = address := by
      rw [hmirrors.same]
      exact h
    show Except.bind (Cursor.readByte addresses) _ = _
    rw [Cursor.readByte_of_cons hrest]
    exact congrArg (fun number : Nat => Except.ok ((number : Int), _)) hnumber

/-- **Addresses.** An address that is written in any mode is read as that address. -/
theorem decode_of_form {mode : Nat} {bytes rest : Bytes} {addresses : Cursor}
    (hmirrors : Mirrors c history) (hlt : address < here)
    (hform : AddressForm c.nearSize c.sameSize history here address mode bytes)
    (hrest : addresses.rest = bytes ++ rest) :
    c.decode here mode addresses = (.ok ⟨address, hlt⟩, c.insert address,
      { addresses with position := addresses.position + bytes.length, rest }) := by
  obtain ⟨m, hm, hread⟩ := read_of_form hmirrors hlt hform hrest
  have hinside : (0 : Int) ≤ address ∧ (address : Int) < here := by omega
  rw [decode, hm]
  dsimp only
  rw [hread]
  dsimp only
  rw [dif_pos hinside]
  rfl

end AddressCache

end Vcdiff
