import Vcdiff.Cursor

/-!
The address of a COPY is written relative to recent addresses. The cache keeps the last few
addresses in a ring, and for each residue the last address that has it; a mode says which of them
an address is relative to.
-/

namespace Vcdiff

/-- What an address is written relative to. -/
inductive AddressMode (nearSize sameSize : Nat) where
  | self
  | here
  | near (slot : Fin nearSize)
  | same (block : Fin sameSize)
  deriving DecidableEq

namespace AddressMode

variable {nearSize sameSize : Nat}

/-- The mode of an address that is written as it is. -/
def selfCode : Nat := 0

/-- The mode of an address that is written as a distance back from the current position. -/
def hereCode : Nat := 1

def toNat : AddressMode nearSize sameSize → Nat
  | self => selfCode
  | here => hereCode
  | near slot => 2 + slot
  | same block => 2 + nearSize + block

def ofNat? (nearSize sameSize mode : Nat) : Option (AddressMode nearSize sameSize) :=
  if mode = selfCode then some self
  else if mode = hereCode then some here
  else if h : mode - 2 < nearSize then some (near ⟨mode - 2, h⟩)
  else if h : mode - 2 - nearSize < sameSize then some (same ⟨mode - 2 - nearSize, h⟩)
  else none

@[simp] theorem ofNat?_toNat (m : AddressMode nearSize sameSize) :
    ofNat? nearSize sameSize m.toNat = some m := by
  cases m with
  | self => rfl
  | here => rfl
  | near slot => simp [ofNat?, toNat, selfCode, hereCode, show 2 + slot.val ≠ 1 by omega]
  | same block => simp [ofNat?, toNat, selfCode, hereCode,
      show 2 + nearSize + block.val ≠ 1 by omega,
      show 2 + nearSize + block.val - 2 = nearSize + block.val by omega]

theorem ofNat?_eq_none_iff {mode : Nat} :
    ofNat? nearSize sameSize mode = none ↔ 2 + nearSize + sameSize ≤ mode := by
  unfold ofNat? selfCode hereCode
  repeat' split
  all_goals simp
  all_goals omega

end AddressMode

structure AddressCache where
  nearSize : Nat
  sameSize : Nat
  near : Vector Nat nearSize
  /-- The ring slot that the next address goes to. -/
  next : Nat
  same : Vector Nat (256 * sameSize)
  deriving DecidableEq

namespace AddressCache

def empty (nearSize sameSize : Nat) : AddressCache :=
  ⟨nearSize, sameSize, Vector.replicate _ 0, 0, Vector.replicate _ 0⟩

def clear (c : AddressCache) : AddressCache := empty c.nearSize c.sameSize

/-- The ring slot after the next one. A ring without slots stays where it is. -/
def following (c : AddressCache) : Nat :=
  if c.nearSize = 0 then c.next else (c.next + 1) % c.nearSize

def insert (c : AddressCache) (address : Nat) : AddressCache :=
  { c with
    near := c.near.setIfInBounds c.next address
    next := c.following
    same := c.same.setIfInBounds (address % (256 * c.sameSize)) address }

/-- The number that the addresses section gives for the next address in a mode. It is not yet
known to be an address: a distance may reach back too far, an offset go too far on. -/
def read (c : AddressCache) (here : Nat) :
    AddressMode c.nearSize c.sameSize → Cursor.Read Int
  | .self => do return (← Cursor.readVarint Varint.maxValue : Nat)
  | .here => do return (here : Int) - (← Cursor.readVarint Varint.maxValue : Nat)
  | .near slot => do return (c.near.get slot + (← Cursor.readVarint Varint.maxValue) : Nat)
  | .same block => do
    let byte ← Cursor.readByte
    have := block.isLt
    have := byte.toNat_lt
    return (c.same[256 * block.val + byte.toNat] : Nat)

/-- Decodes one address below `here` and takes it into the cache. A number that is no such address
has been read from the section all the same, but leaves the cache as it was. -/
def decode (c : AddressCache) (here mode : Nat) (addresses : Cursor) :
    Except Fault (Fin here) × AddressCache × Cursor :=
  match AddressMode.ofNat? c.nearSize c.sameSize mode with
  | none => (.error (.unknownMode mode c.nearSize c.sameSize), c, addresses)
  | some m =>
    match c.read here m addresses with
    | .error fault => (.error fault, c, addresses)
    | .ok (number, addresses) =>
      if h : 0 ≤ number ∧ number < here then
        (.ok ⟨number.toNat, by omega⟩, c.insert number.toNat, addresses)
      else (.error (.addressOutside number here mode), c, addresses)

/-- An address that is decoded enters the cache, and nothing else does. -/
theorem decode_cases (c : AddressCache) (here mode : Nat) (addresses : Cursor) :
    (∃ address rest,
      c.decode here mode addresses = (.ok address, c.insert address.val, rest)) ∨
    ∃ fault rest, c.decode here mode addresses = (.error fault, c, rest) := by
  unfold decode
  cases AddressMode.ofNat? c.nearSize c.sameSize mode with
  | none => exact .inr ⟨_, _, rfl⟩
  | some m =>
    dsimp only
    cases c.read here m addresses with
    | error fault => exact .inr ⟨_, _, rfl⟩
    | ok result =>
      dsimp only
      split
      · exact .inl ⟨_, _, rfl⟩
      · exact .inr ⟨_, _, rfl⟩

@[simp] theorem nearSize_clear (c : AddressCache) : c.clear.nearSize = c.nearSize := rfl
@[simp] theorem sameSize_clear (c : AddressCache) : c.clear.sameSize = c.sameSize := rfl
@[simp] theorem nearSize_insert (c : AddressCache) (a : Nat) :
    (c.insert a).nearSize = c.nearSize := rfl
@[simp] theorem sameSize_insert (c : AddressCache) (a : Nat) :
    (c.insert a).sameSize = c.sameSize := rfl

end AddressCache

end Vcdiff
