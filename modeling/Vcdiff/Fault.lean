/-!
Why a delta cannot be decoded. A fault names its cause with the numbers that belong to it; its
kind groups causes that a caller treats alike, and its message is the text shown to people.
-/

namespace Vcdiff

/-- The fields that stand inside a window's delta encoding, before its sections. -/
inductive WindowField where
  | targetLength
  | deltaIndicator
  | dataLength
  | instructionsLength
  | addressesLength
  | checksum
  deriving DecidableEq

def WindowField.name : WindowField → String
  | .targetLength => "target length"
  | .deltaIndicator => "delta indicator"
  | .dataLength => "data section length"
  | .instructionsLength => "instructions section length"
  | .addressesLength => "addresses section length"
  | .checksum => "checksum"

inductive Fault where
  -- numbers and sections
  | varintTooLarge (offset limit : Nat)
  | varintCutOff (label : String) (offset : Nat)
  | regionOutside (label : String) (start stop : Int) (size : Nat)
  | sectionExhausted (label : String) (wanted offset left : Nat)
  -- file header
  | badMagic
  | unsupportedVersion (version : UInt8)
  | badHeaderIndicator (indicator : UInt8)
  | compressedFile
  | tableSectionTooShort (length : Nat)
  | headerCutOff (missing : Nat)
  | endedInHeader
  -- window header
  | badWindowIndicator (indicator : UInt8)
  | twoSegments
  | fieldPastDelta (field : WindowField) (deltaLength : Nat)
  | compressedSections (indicator : UInt8)
  | badDeltaIndicator (indicator : UInt8)
  | sectionsDoNotFill (data instructions addresses deltaLength : Nat)
  | windowCutOff (offset missing : Nat)
  | endedInWindow (left : Nat)
  -- code table
  | tableSize (size : Nat)
  | tooManyModes (nearSize sameSize : Nat)
  | unknownInstruction (code : UInt8) (opcode : Nat)
  | modeOutsideTable (mode : UInt8) (opcode modeCount : Nat)
  | nestedTable
  | decodedTableTooLarge
  | decodedTableSize (size : Nat)
  -- replay of a window
  | unknownMode (mode nearSize sameSize : Nat)
  | addressOutside (address : Int) (here mode : Nat)
  | overrun (size produced targetLength : Nat)
  | targetShort (produced targetLength : Nat)
  | checksumMismatch (expected actual : Nat)
  | outsideDictionary (start stop size : Nat)
  | outsideOutput (start stop size : Nat)
  -- limits
  | encodedWindowTooLarge (size limit : Int)
  | targetWindowTooLarge (length : Nat) (limit : Int)
  | outputTooLarge (limit : Int)
  | cannotAllocate (length : Nat)
  -- calls out of order
  | headerAlreadyRead
  | headerNotRead
  | replayDone
  | replayFaulted
  deriving DecidableEq

namespace Fault

inductive Kind where
  | badMagic
  | unsupportedVersion
  | unsupportedFeature
  | invalidIndicator
  | truncatedInput
  | integerOverflow
  | lengthMismatch
  | invalidAddress
  | checksumMismatch
  | invalidCodeTable
  | limitExceeded
  /-- The caller used an operation at a time when it is not allowed; no delta is to blame. -/
  | misuse
  deriving DecidableEq

def kind : Fault → Kind
  | varintTooLarge .. => .integerOverflow
  | varintCutOff .. => .truncatedInput
  | regionOutside .. => .truncatedInput
  | sectionExhausted .. => .truncatedInput
  | badMagic => .badMagic
  | unsupportedVersion _ => .unsupportedVersion
  | badHeaderIndicator _ => .invalidIndicator
  | compressedFile => .unsupportedFeature
  | tableSectionTooShort _ => .invalidCodeTable
  | headerCutOff _ => .truncatedInput
  | endedInHeader => .truncatedInput
  | badWindowIndicator _ => .invalidIndicator
  | twoSegments => .invalidIndicator
  | fieldPastDelta .. => .lengthMismatch
  | compressedSections _ => .unsupportedFeature
  | badDeltaIndicator _ => .invalidIndicator
  | sectionsDoNotFill .. => .lengthMismatch
  | windowCutOff .. => .truncatedInput
  | endedInWindow _ => .truncatedInput
  | tableSize _ => .invalidCodeTable
  | tooManyModes .. => .invalidCodeTable
  | unknownInstruction .. => .invalidCodeTable
  | modeOutsideTable .. => .invalidCodeTable
  | nestedTable => .invalidCodeTable
  | decodedTableTooLarge => .invalidCodeTable
  | decodedTableSize _ => .invalidCodeTable
  | unknownMode .. => .invalidAddress
  | addressOutside .. => .invalidAddress
  | overrun .. => .lengthMismatch
  | targetShort .. => .lengthMismatch
  | checksumMismatch .. => .checksumMismatch
  | outsideDictionary .. => .lengthMismatch
  | outsideOutput .. => .lengthMismatch
  | encodedWindowTooLarge .. => .limitExceeded
  | targetWindowTooLarge .. => .limitExceeded
  | outputTooLarge _ => .limitExceeded
  | cannotAllocate _ => .limitExceeded
  | headerAlreadyRead => .misuse
  | headerNotRead => .misuse
  | replayDone => .misuse
  | replayFaulted => .misuse

/-- Lower-case hexadecimal digits, without leading zeros, after `0x`. -/
def hex (n : Nat) : String := "0x" ++ String.ofList (Nat.toDigits 16 n)

def message : Fault → String
  | varintTooLarge offset limit =>
    s!"Variable-length integer at offset {offset} exceeds {limit}"
  | varintCutOff label offset =>
    s!"Truncated variable-length integer in {label} at offset {offset}"
  | regionOutside label start stop size =>
    s!"Section {label} [{start}, {stop}) is outside of {size} bytes"
  | sectionExhausted label wanted offset left =>
    s!"Unexpected end of {label}: wanted {wanted} byte(s) at offset {offset}, {left} left"
  | badMagic => "Invalid VCDIFF magic bytes"
  | unsupportedVersion version => "Unsupported VCDIFF version: " ++ hex version.toNat
  | badHeaderIndicator indicator => "Invalid header indicator: " ++ hex indicator.toNat
  | compressedFile => "Secondary compression of delta files is not supported"
  | tableSectionTooShort length => s!"Custom code table section too short: {length} byte(s)"
  | headerCutOff missing => s!"Truncated VCDIFF header ({missing} more byte(s) needed)"
  | endedInHeader => "Truncated VCDIFF header"
  | badWindowIndicator indicator => "Invalid window indicator: " ++ hex indicator.toNat
  | twoSegments => "Window indicator has both VCD_SOURCE and VCD_TARGET set"
  | fieldPastDelta field deltaLength =>
    "Window " ++ field.name ++ s!" runs past the delta encoding length {deltaLength}"
  | compressedSections indicator =>
    "Secondary compression of window sections is not supported (delta indicator "
      ++ hex indicator.toNat ++ ")"
  | badDeltaIndicator indicator => "Invalid delta indicator: " ++ hex indicator.toNat
  | sectionsDoNotFill data instructions addresses deltaLength =>
    s!"Window sections (data {data}, instructions {instructions}, addresses {addresses}) "
      ++ s!"do not match the delta encoding length {deltaLength}"
  | windowCutOff offset missing =>
    s!"Truncated VCDIFF window at offset {offset} ({missing} more byte(s) needed)"
  | endedInWindow left => s!"Truncated VCDIFF window ({left} byte(s) left over)"
  | tableSize size => s!"Code table data must be 1536 bytes, got {size}"
  | tooManyModes nearSize sameSize =>
    s!"Near cache size {nearSize} plus same cache size {sameSize} leaves no room for 256 modes"
  | unknownInstruction code opcode => s!"Invalid instruction type {code} for opcode {opcode}"
  | modeOutsideTable mode opcode modeCount =>
    s!"Invalid COPY mode {mode} for opcode {opcode} (table has {modeCount} modes)"
  | nestedTable => "A custom code table may not itself declare a custom code table"
  | decodedTableTooLarge => "Custom code table decodes to more than 1536 bytes"
  | decodedTableSize size => s!"Custom code table decodes to {size} bytes, expected 1536"
  | unknownMode mode nearSize sameSize =>
    s!"Invalid address mode {mode} (near cache {nearSize}, same cache {sameSize})"
  | addressOutside address here mode =>
    s!"COPY address {address} is outside of the {here} byte(s) available (mode {mode})"
  | overrun size produced targetLength =>
    s!"Instruction of {size} byte(s) at target offset {produced} "
      ++ s!"overruns the target window length {targetLength}"
  | targetShort produced targetLength =>
    s!"Window produced {produced} byte(s) but declared a target length of {targetLength}"
  | checksumMismatch expected actual =>
    "Window checksum mismatch: expected " ++ hex expected ++ ", got " ++ hex actual
  | outsideDictionary start stop size =>
    s!"Source segment [{start}, {stop}) exceeds the {size} byte dictionary"
  | outsideOutput start stop size =>
    s!"Target segment [{start}, {stop}) exceeds the {size} byte(s) decoded so far"
  | encodedWindowTooLarge size limit =>
    s!"Encoded window of {size} bytes exceeds the maximum of {limit}"
  | targetWindowTooLarge length limit =>
    s!"Target window length {length} exceeds the maximum of {limit}"
  | outputTooLarge limit =>
    s!"Decoded output would exceed the maximum target file size of {limit}"
  | cannotAllocate length => s!"Cannot allocate a target window of {length} bytes"
  | headerAlreadyRead => "VCDIFF header has already been read"
  | headerNotRead => "VCDIFF header must be read before decoding windows"
  | replayDone => "Cannot step a delta applier that is done"
  | replayFaulted => "Cannot step a delta applier that is faulted"

end Fault

end Vcdiff
