import Vcdiff.Bytes

/-!
The Adler-32 checksum: two running sums over the bytes, modulo a prime. The sums are reduced only
once per block, and a checksum can be continued over further bytes.
-/

namespace Vcdiff.Checksum

def modulus : Nat := 65521

/-- How many bytes are summed before the sums are reduced. -/
def blockSize : Nat := 5552

/-- `a` sums the bytes, `b` the values that `a` runs through. -/
structure Sums where
  a : Nat
  b : Nat
  deriving DecidableEq

namespace Sums

/-- The sums that a 32-bit checksum holds; higher bits are ignored. -/
def ofNat (checksum : Nat) : Sums := ⟨checksum % 65536, checksum / 65536 % 65536⟩

def toNat (s : Sums) : Nat := s.b * 65536 + s.a

def add (s : Sums) (byte : UInt8) : Sums := ⟨s.a + byte.toNat, s.b + (s.a + byte.toNat)⟩

def reduce (s : Sums) : Sums := ⟨s.a % modulus, s.b % modulus⟩

/-- Adds one block and reduces the sums after its last byte. -/
def addBlock (s : Sums) (block : Bytes) : Sums := (block.foldl add s).reduce

def addBlocks (s : Sums) (bytes : Bytes) : Sums :=
  if bytes.isEmpty then s
  else addBlocks (s.addBlock (bytes.take blockSize)) (bytes.drop blockSize)
termination_by bytes.length
decreasing_by
  rename_i h
  have := List.length_pos_iff.2 (fun e => h (List.isEmpty_iff.2 e))
  simp only [List.length_drop, blockSize]
  omega

@[simp] theorem addBlocks_nil (s : Sums) : s.addBlocks [] = s := by
  simp [addBlocks]

end Sums

/-- The checksum of no bytes. -/
def initial : Nat := 1

/-- The checksum of `bytes`, continued from a checksum of what came before them. -/
def adler32 (before : Nat) (bytes : Bytes) : Nat :=
  ((Sums.ofNat before).addBlocks bytes).toNat

/-- The checksum of the bytes from `start` to `stop`, or what it is continued from when there are
none. A part that reaches beyond the bytes has no checksum, and zero stands for that. -/
def adler32Between (before : Nat) (bytes : Bytes) (start stop : Int) : Nat :=
  if start < stop ∧ (start < 0 ∨ (bytes.length : Int) < stop) then 0
  else adler32 before (bytes.between start.toNat stop.toNat)

theorem adler32Between_of_le (before : Nat) {bytes : Bytes} {start stop : Nat}
    (h : stop ≤ bytes.length) :
    adler32Between before bytes start stop = adler32 before (bytes.between start stop) := by
  unfold adler32Between
  rw [if_neg (by omega)]
  simp

theorem adler32_nil {before : Nat} (h : before < 4294967296) : adler32 before [] = before := by
  simp only [adler32, Sums.addBlocks_nil, Sums.toNat, Sums.ofNat]
  omega

end Vcdiff.Checksum
