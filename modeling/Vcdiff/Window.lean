import Vcdiff.Parser

/-!
One window of a delta: an optional segment of earlier bytes to copy from, then the delta encoding,
which holds the length of the target, an optional checksum and three sections.
-/

namespace Vcdiff

/-- Where the bytes of a segment come from. -/
inductive Origin where
  | dictionary
  /-- The output of the windows before. -/
  | target
  deriving DecidableEq

def Origin.bit : Origin → UInt8
  | dictionary => 1
  | target => 2

structure Segment where
  origin : Origin
  offset : Nat
  length : Nat
  deriving DecidableEq

def Segment.stop (s : Segment) : Nat := s.offset + s.length

structure Window where
  /-- Where the window begins in the input. -/
  offset : Nat
  segment : Option Segment
  /-- The bytes from the target length to the end of the sections. -/
  deltaLength : Nat
  targetLength : Nat
  checksum : Option Nat
  /-- Where the data section begins in the input; the other two follow it. -/
  dataOffset : Nat
  data : Bytes
  instructions : Bytes
  addresses : Bytes
  deriving DecidableEq

namespace Window

def checksumBit : UInt8 := 4

variable (w : Window)

def indicator : UInt8 :=
  w.segment.elim 0 (·.origin.bit) ||| (if w.checksum.isSome then checksumBit else 0)

/-- The bits of the delta indicator, each for the compression of a section. -/
def dataCompressionBit : UInt8 := 1

def instructionsCompressionBit : UInt8 := 2

def addressesCompressionBit : UInt8 := 4

/-- No section of a window that parses is compressed. -/
def deltaIndicator (_ : Window) : UInt8 := 0

def instructionsOffset : Nat := w.dataOffset + w.data.length

def addressesOffset : Nat := w.instructionsOffset + w.instructions.length

def stop : Nat := w.addressesOffset + w.addresses.length

/-- The bytes that the window takes in the input. -/
def size : Nat := w.stop - w.offset

open Vcdiff.Parser

/-- The indicator announces at most one segment, and a checksum or none. -/
def indicatorByte : Parser UInt8 := do
  let b ← byte 1
  failIf (7 < b) (.badWindowIndicator b)
  failIf (b &&& Origin.dictionary.bit ≠ 0 ∧ b &&& Origin.target.bit ≠ 0) .twoSegments
  return b

def originOf (indicator : UInt8) : Option Origin :=
  if indicator &&& Origin.dictionary.bit ≠ 0 then some .dictionary
  else if indicator &&& Origin.target.bit ≠ 0 then some .target
  else none

def segmentPart : Option Origin → Parser (Option Segment)
  | none => pure none
  | some origin => do
    let length ← varint
    let offset ← varint
    return some ⟨origin, offset, length⟩

def compressionBits : UInt8 :=
  dataCompressionBit ||| instructionsCompressionBit ||| addressesCompressionBit

/-- The lengths that the delta encoding states before its sections, and the checksum. -/
structure Lengths where
  target : Nat
  data : Nat
  instructions : Nat
  addresses : Nat
  checksum : Option Nat
  deriving DecidableEq

def checksumPart (indicator : UInt8) : Parser (Option Nat) :=
  if indicator &&& checksumBit = 0 then pure none else (some ·.toNat) <$> take 4

/-- All of the delta encoding is there, so a field that runs out of bytes is a fault. -/
def lengthsPart (indicator : UInt8) (deltaLength : Nat) : Parser Lengths := do
  let target ← varint.orFault (.fieldPastDelta .targetLength deltaLength)
  let compression ← (byte 1).orFault (.fieldPastDelta .deltaIndicator deltaLength)
  failIf (compression &&& compressionBits ≠ 0) (.compressedSections compression)
  failIf (compression ≠ 0) (.badDeltaIndicator compression)
  let data ← varint.orFault (.fieldPastDelta .dataLength deltaLength)
  let instructions ← varint.orFault (.fieldPastDelta .instructionsLength deltaLength)
  let addresses ← varint.orFault (.fieldPastDelta .addressesLength deltaLength)
  let checksum ← (checksumPart indicator).orFault (.fieldPastDelta .checksum deltaLength)
  return ⟨target, data, instructions, addresses, checksum⟩

/-- The sections fill what the lengths leave of the delta encoding. -/
def deltaPart (offset : Nat) (indicator : UInt8) (segment : Option Segment) (deltaLength : Nat) :
    Parser Window := do
  let n ← lengthsPart indicator deltaLength
  let dataOffset ← position
  let sections ← ahead
  failIf (n.data + n.instructions + n.addresses ≠ sections.length)
    (.sectionsDoNotFill n.data n.instructions n.addresses deltaLength)
  return {
    offset, segment, deltaLength, dataOffset
    targetLength := n.target
    checksum := n.checksum
    data := sections.take n.data
    instructions := (sections.drop n.data).take n.instructions
    addresses := sections.drop (n.data + n.instructions) }

def parser : Parser Window := do
  let offset ← position
  let indicator ← indicatorByte
  let segment ← segmentPart (originOf indicator)
  let deltaLength ← varint
  let deltaOffset ← position
  let delta ← take deltaLength
  within deltaOffset delta (deltaPart offset indicator segment deltaLength)

/-- The window that stands at the front of the input. -/
def parse (input : Input) : Except Halt Window := (·.1) <$> parser input

theorem exact_segmentPart : ∀ origin, Exact (segmentPart origin)
  | none => exact_pure _
  | some _ => exact_bind exact_varint fun _ => exact_bind exact_varint fun _ => exact_pure _

theorem exact_checksumPart (indicator : UInt8) : Exact (checksumPart indicator) := by
  unfold checksumPart
  split
  · exact exact_pure _
  · exact exact_map _ (exact_take 4)

theorem exact_lengthsPart (indicator : UInt8) (deltaLength : Nat) :
    Exact (lengthsPart indicator deltaLength) :=
  exact_bind (exact_orFault exact_varint _) fun _ =>
    exact_bind (exact_orFault (exact_byte 1) _) fun _ =>
    exact_bind (exact_failIf _ _) fun _ => exact_bind (exact_failIf _ _) fun _ =>
    exact_bind (exact_orFault exact_varint _) fun _ =>
    exact_bind (exact_orFault exact_varint _) fun _ =>
    exact_bind (exact_orFault exact_varint _) fun _ =>
    exact_bind (exact_orFault (exact_checksumPart indicator) _) fun _ => exact_pure _

theorem dataOffset_of_deltaPart {offset deltaLength : Nat} {indicator : UInt8}
    {segment : Option Segment} {i j : Input} {w : Window}
    (h : deltaPart offset indicator segment deltaLength i = .ok (w, j)) :
    w.offset = offset ∧ i.position ≤ w.dataOffset := by
  obtain ⟨n, j1, h1, h⟩ := bind_eq_ok_iff.1 h
  obtain ⟨used, -, hpos⟩ := exact_lengthsPart _ _ _ _ _ h1
  obtain ⟨_, _, h2, h⟩ := bind_eq_ok_iff.1 h
  cases h2
  obtain ⟨_, _, h3, h⟩ := bind_eq_ok_iff.1 h
  cases h3
  obtain ⟨_, _, h4, h⟩ := bind_eq_ok_iff.1 h
  obtain ⟨-, h4⟩ := failIf_eq_ok_iff.1 h4
  cases h4
  cases h
  exact ⟨rfl, by simp only; omega⟩

theorem exists_of_parse {input : Input} {w : Window} (h : parse input = .ok w) :
    ∃ rest, parser input = .ok (w, rest) := by
  unfold parse at h
  rcases hp : parser input with _ | ⟨v, rest⟩
  · rw [hp] at h
    cases h
  · rw [hp] at h
    cases h
    exact ⟨rest, rfl⟩

/-- A window takes at least one byte. -/
theorem size_pos_of_parse {input : Input} {w : Window} (h : parse input = .ok w) : 0 < w.size := by
  obtain ⟨_, h⟩ := exists_of_parse h
  obtain ⟨_, _, h1, h⟩ := bind_eq_ok_iff.1 h
  cases h1
  obtain ⟨indicator, j1, h1, h⟩ := bind_eq_ok_iff.1 h
  have hlt : input.position < j1.position := by
    obtain ⟨b, k, hb, h1⟩ := bind_eq_ok_iff.1 h1
    obtain ⟨used, -, hpos⟩ := exact_bind (exact_failIf _ _) (fun _ =>
      exact_bind (exact_failIf _ _) fun _ => exact_pure b) _ _ _ h1
    have : k.position = input.position + 1 := by
      unfold byte at hb
      split at hb <;> cases hb
      rfl
    omega
  obtain ⟨segment, j2, h2, h⟩ := bind_eq_ok_iff.1 h
  obtain ⟨u2, -, hpos2⟩ := exact_segmentPart _ _ _ _ h2
  obtain ⟨deltaLength, j3, h3, h⟩ := bind_eq_ok_iff.1 h
  obtain ⟨u3, -, hpos3⟩ := exact_varint _ _ _ h3
  obtain ⟨_, _, h4, h⟩ := bind_eq_ok_iff.1 h
  cases h4
  obtain ⟨delta, j5, h5, h⟩ := bind_eq_ok_iff.1 h
  unfold within at h
  split at h
  · rename_i heq
    cases h
    obtain ⟨hoff, hle⟩ := dataOffset_of_deltaPart heq
    simp only [Input.ofBytes] at hle
    unfold size stop addressesOffset instructionsOffset
    omega
  · cases h

end Window

end Vcdiff
