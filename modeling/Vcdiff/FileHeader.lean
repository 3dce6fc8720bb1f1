import Vcdiff.Parser

/-!
The header of a delta file: a signature, a version, and up to two optional parts, a code table of
the file's own and bytes for the application.
-/

namespace Vcdiff

/-- The declaration of a code table: the sizes of its address caches, and the table itself as a
delta against the serialised default table. -/
structure TableSection where
  nearSize : Nat
  sameSize : Nat
  delta : Bytes
  deriving DecidableEq

structure FileHeader where
  table : Option TableSection
  application : Option Bytes
  /-- The bytes that the header takes in the file. -/
  size : Nat
  deriving DecidableEq

namespace FileHeader

def signature : Bytes := [0xd6, 0xc3, 0xc4]

def version : UInt8 := 0

/-- The bytes of the signature, the version and the indicator. -/
def fixedSize : Nat := 5

def compressionBit : UInt8 := 1

def tableBit : UInt8 := 2

def applicationBit : UInt8 := 4

def indicator (h : FileHeader) : UInt8 :=
  (if h.table.isSome then tableBit else 0) ||| (if h.application.isSome then applicationBit else 0)

def nearSize (h : FileHeader) : Nat := h.table.elim 0 (·.nearSize)

def sameSize (h : FileHeader) : Nat := h.table.elim 0 (·.sameSize)

open Vcdiff.Parser

/-- The given bytes of the signature, when `unit` bytes of the fixed part are still to come. -/
def expect (unit : Nat) : Bytes → Parser Unit
  | [] => pure ()
  | expected :: rest => do
    let b ← byte unit
    failIf (b ≠ expected) .badMagic
    expect (unit - 1) rest

/-- The version and the indicator are judged only when both are there. -/
def fixedPart : Parser UInt8 := do
  expect fixedSize signature
  need 2
  let found ← byte 2
  failIf (found ≠ version) (.unsupportedVersion found)
  let indicator ← byte 1
  failIf (7 < indicator) (.badHeaderIndicator indicator)
  failIf (indicator &&& compressionBit ≠ 0) .compressedFile
  return indicator

def tableSection : Parser TableSection := do
  let length ← varint
  failIf (length < 2) (.tableSectionTooShort length)
  need length
  let nearSize ← byte 2
  let sameSize ← byte 1
  let delta ← take (length - 2)
  return ⟨nearSize.toNat, sameSize.toNat, delta⟩

def tablePart (indicator : UInt8) : Parser (Option TableSection) :=
  if indicator &&& tableBit = 0 then pure none else some <$> tableSection

def applicationPart (indicator : UInt8) : Parser (Option Bytes) :=
  if indicator &&& applicationBit = 0 then pure none else some <$> (varint >>= take)

def parser : Parser FileHeader := do
  let start ← position
  let indicator ← fixedPart
  let table ← tablePart indicator
  let application ← applicationPart indicator
  return ⟨table, application, (← position) - start⟩

/-- The header at the front of the input; all bytes before and in its fixed part have to come. -/
def parse (input : Input) : Except Halt FileHeader :=
  if 0 < input.gap then .error (.incomplete (input.gap + fixedSize))
  else (·.1) <$> parser input

end FileHeader

end Vcdiff
