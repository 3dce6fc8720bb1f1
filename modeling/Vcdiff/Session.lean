import Vcdiff.FileHeader
import Vcdiff.Limits
import Vcdiff.Replay
import Vcdiff.Window

/-!
Decoding a delta in the course of a session. A session reads the file header once and then window
after window; it keeps the output, from which later windows may copy. An operation that fails
changes nothing but the content of the address cache, and each window begins with a cleared one.

The code table of a file is itself a delta over the serialised default table. Such a delta may not
declare a table in its turn, so a session reads its header with `plainTable`, any other with
`loadTable`.
-/

namespace Vcdiff

structure Session where
  dictionary : Array UInt8
  limits : Limits
  header : Option FileHeader
  table : CodeTable
  cache : AddressCache
  output : Array UInt8

/-- What a window decodes to, and the bytes that it took in the delta. -/
structure DecodedWindow where
  output : Array UInt8
  size : Nat
  deriving DecidableEq

/-- How the code table that a file header calls for is made. -/
abbrev TableLoader := FileHeader → Except Fault CodeTable

namespace Session

def start (dictionary : Array UInt8) (limits : Limits) : Session where
  dictionary
  limits
  header := none
  table := .default
  cache := .empty CodeTable.default.nearSize CodeTable.default.sameSize
  output := #[]

variable (s : Session)

/-- Reads the file header at the front of the input, and installs its code table. -/
def readHeaderWith (load : TableLoader) (input : Input) : Except Halt FileHeader × Session :=
  if s.header.isSome then (.error (.invalid .headerAlreadyRead), s)
  else
    match FileHeader.parse input with
    | .error halt => (.error halt, s)
    | .ok header =>
      match load header with
      | .error fault => (.error (.invalid fault), s)
      | .ok table =>
        (.ok header,
          { s with header := some header, table, cache := .empty table.nearSize table.sameSize })

/-- The bytes of a segment. -/
def segmentBytes : Option Segment → Except Fault (Array UInt8)
  | none => .ok #[]
  | some segment =>
    match segment.origin with
    | .dictionary =>
      if s.dictionary.size < segment.stop then
        .error (.outsideDictionary segment.offset segment.stop s.dictionary.size)
      else .ok (s.dictionary.extract segment.offset segment.stop)
    | .target =>
      if s.output.size < segment.stop then
        .error (.outsideOutput segment.offset segment.stop s.output.size)
      else .ok (s.output.extract segment.offset segment.stop)

/-- The bytes of a window's segment, if the limits allow the window. -/
def sourceOf (window : Window) : Except Fault (Array UInt8) := do
  s.limits.checkEncoded window.size
  s.limits.checkTarget s.output.size window.targetLength
  s.segmentBytes window.segment

/-- The window at the front of the input and the bytes of its segment. A window that is not all
there is held against its limit with the bytes that it still needs. -/
def openWindow (input : Input) : Except Halt (Window × Array UInt8) :=
  match Window.parse input with
  | .error (.invalid fault) => .error (.invalid fault)
  | .error (.incomplete missing) =>
    match s.limits.checkEncoded (input.available + missing) with
    | .error fault => .error (.invalid fault)
    | .ok () => .error (.incomplete missing)
  | .ok window =>
    match s.sourceOf window with
    | .error fault => .error (.invalid fault)
    | .ok source => .ok (window, source)

/-- The replay of a window at its start. -/
def progressOf (window : Window) : Progress :=
  .start (.ofSection "data section" window.dataOffset window.data)
    (.ofSection "instructions section" window.instructionsOffset window.instructions)
    (.ofSection "addresses section" window.addressesOffset window.addresses) s.cache

def taskOf (window : Window) (source : Array UInt8) : Task :=
  ⟨s.table, source, window.targetLength, window.checksum⟩

/-- Decodes the window at the front of the input. -/
def decodeWindow (input : Input) : Except Halt DecodedWindow × Session :=
  if s.header.isNone then (.error (.invalid .headerNotRead), s)
  else
    match s.openWindow input with
    | .error halt => (.error halt, s)
    | .ok (window, source) =>
      match Replay.run (s.taskOf window source) (s.progressOf window) with
      | (.ok target, progress) =>
        (.ok ⟨target, window.size⟩,
          { s with cache := progress.cache, output := s.output ++ target })
      | (.error fault, progress) => (.error (.invalid fault), { s with cache := progress.cache })

theorem parse_of_openWindow {s : Session} {input : Input} {window : Window} {source : Array UInt8}
    (h : s.openWindow input = .ok (window, source)) : Window.parse input = .ok window := by
  unfold openWindow at h
  split at h
  · cases h
  · split at h <;> cases h
  · rename_i heq
    split at h <;> cases h
    exact heq

theorem size_pos_of_decodeWindow {s t : Session} {input : Input} {d : DecodedWindow}
    (h : s.decodeWindow input = (.ok d, t)) : 0 < d.size := by
  unfold decodeWindow at h
  split at h
  · cases h
  · split at h
    · cases h
    · rename_i heq
      split at h <;> cases h
      exact Window.size_pos_of_parse (parse_of_openWindow heq)

/-- Decodes windows until the input is used up. -/
def decodeWindows (s : Session) (input : Input) : Except Fault Unit × Session :=
  if _hne : input.rest.isEmpty then (.ok (), s)
  else
    match _h : s.decodeWindow input with
    | (.ok d, s) => decodeWindows s (input.drop d.size)
    | (.error (.incomplete missing), s) => (.error (.windowCutOff input.position missing), s)
    | (.error (.invalid fault), s) => (.error fault, s)
termination_by input.rest.length
decreasing_by
  have := size_pos_of_decodeWindow _h
  have := List.length_pos_iff.2 (fun e => _hne (List.isEmpty_iff.2 e))
  rw [Input.length_rest_drop]
  omega

/-- Decodes a whole delta, which begins with its header, and gives all of the output. -/
def decodeWith (load : TableLoader) (delta : Bytes) : Except Fault (Array UInt8) × Session :=
  let input := Input.ofBytes 0 delta
  match s.readHeaderWith load input with
  | (.error (.incomplete missing), s) => (.error (.headerCutOff missing), s)
  | (.error (.invalid fault), s) => (.error fault, s)
  | (.ok header, s) =>
    match s.decodeWindows (input.drop header.size) with
    | (.ok (), s) => (.ok s.output, s)
    | (.error fault, s) => (.error fault, s)

end Session

/-- The default table, for a header that declares no other. -/
def plainTable : TableLoader := fun header =>
  if header.table.isSome then .error .nestedTable else .ok .default

section Table

variable (canAllocate : Nat → Bool)

/-- The limits on the delta of a code table. -/
def tableLimits : Limits :=
  .ofOptions canAllocate (some CodeTable.byteSize) (some CodeTable.byteSize) none

/-- Decodes the delta of a code table. -/
def decodeTable (delta : Bytes) : Except Fault (Array UInt8) :=
  match ((Session.start CodeTable.default.toBytes.toArray (tableLimits canAllocate)).decodeWith
    plainTable delta).1 with
  | .error fault => .error (if fault.kind = .limitExceeded then .decodedTableTooLarge else fault)
  | .ok bytes =>
    if bytes.size ≠ CodeTable.byteSize then .error (.decodedTableSize bytes.size) else .ok bytes

/-- The table that a header declares, or else the default table. -/
def loadTable : TableLoader := fun header =>
  match header.table with
  | none => .ok .default
  | some declared => do
    let bytes ← decodeTable canAllocate declared.delta
    CodeTable.ofBytes bytes.toList declared.nearSize declared.sameSize

end Table

namespace Session

def readHeader (s : Session) (input : Input) : Except Halt FileHeader × Session :=
  s.readHeaderWith (loadTable s.limits.canAllocate) input

def decode (s : Session) (delta : Bytes) : Except Fault (Array UInt8) × Session :=
  s.decodeWith (loadTable s.limits.canAllocate) delta

end Session

/-- Rebuilds the target that a delta encodes against a dictionary. -/
def decode (dictionary : Array UInt8) (limits : Limits) (delta : Bytes) :
    Except Fault (Array UInt8) :=
  ((Session.start dictionary limits).decode delta).1

end Vcdiff
