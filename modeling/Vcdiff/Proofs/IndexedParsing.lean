import Vcdiff.Proofs.Indexing

/-!
The file header and the windows of a delta, read by index.
-/

namespace Vcdiff

namespace Reader

section Parts

variable (bytes : Bytes) (stop : Nat)

/-! ### The file header -/

/-- The given bytes of the signature, of a header that begins at `start`. -/
def expect (start : Nat) : Bytes → Reader Unit
  | [] => pure ()
  | expected :: rest => do
    let b ← byte bytes stop (start + FileHeader.fixedSize - stop)
    failIf (b ≠ expected) .badMagic
    expect start rest

/-- The version and the indicator are read when both are there. -/
def fixedPart (start : Nat) : Reader UInt8 := do
  expect bytes stop start FileHeader.signature
  need stop 2
  let found ← next bytes
  failIf (found ≠ FileHeader.version) (.unsupportedVersion found)
  let indicator ← next bytes
  failIf (7 < indicator) (.badHeaderIndicator indicator)
  failIf (indicator &&& FileHeader.compressionBit ≠ 0) .compressedFile
  return indicator

def tableSection : Reader TableSection := do
  let length ← varint bytes stop
  failIf (length < 2) (.tableSectionTooShort length)
  need stop length
  let nearSize ← next bytes
  let sameSize ← next bytes
  let delta ← nextAll bytes (length - 2)
  return ⟨nearSize.toNat, sameSize.toNat, delta⟩

def tablePart (indicator : UInt8) : Reader (Option TableSection) :=
  if indicator &&& FileHeader.tableBit = 0 then pure none
  else some <$> tableSection bytes stop

def applicationPart (indicator : UInt8) : Reader (Option Bytes) :=
  if indicator &&& FileHeader.applicationBit = 0 then pure none
  else some <$> (varint bytes stop >>= take bytes stop)

def fileHeader : Reader FileHeader := do
  let start ← position
  let indicator ← fixedPart bytes stop start
  let table ← tablePart bytes stop indicator
  let application ← applicationPart bytes stop indicator
  return ⟨table, application, (← position) - start⟩

/-! ### Windows -/

def indicatorByte : Reader UInt8 := do
  let b ← byte bytes stop 1
  failIf (7 < b) (.badWindowIndicator b)
  failIf (b &&& Origin.dictionary.bit ≠ 0 ∧ b &&& Origin.target.bit ≠ 0) .twoSegments
  return b

def segmentPart : Option Origin → Reader (Option Segment)
  | none => pure none
  | some origin => do
    let length ← varint bytes stop
    let offset ← varint bytes stop
    return some ⟨origin, offset, length⟩

def checksumPart (indicator : UInt8) : Reader (Option Nat) :=
  if indicator &&& Window.checksumBit = 0 then pure none
  else (some ·.toNat) <$> take bytes stop 4

def lengthsPart (indicator : UInt8) (deltaLength : Nat) : Reader Window.Lengths := do
  let target ← (varint bytes stop).orFault (.fieldPastDelta .targetLength deltaLength)
  let compression ← (byte bytes stop 1).orFault (.fieldPastDelta .deltaIndicator deltaLength)
  failIf (compression &&& Window.compressionBits ≠ 0) (.compressedSections compression)
  failIf (compression ≠ 0) (.badDeltaIndicator compression)
  let data ← (varint bytes stop).orFault (.fieldPastDelta .dataLength deltaLength)
  let instructions ← (varint bytes stop).orFault (.fieldPastDelta .instructionsLength deltaLength)
  let addresses ← (varint bytes stop).orFault (.fieldPastDelta .addressesLength deltaLength)
  let checksum ← (checksumPart bytes stop indicator).orFault (.fieldPastDelta .checksum deltaLength)
  return ⟨target, data, instructions, addresses, checksum⟩

/-- The sections are taken where their lengths put them, if they end where the delta encoding
does. -/
def deltaPart (offset : Nat) (indicator : UInt8) (segment : Option Segment) (deltaLength : Nat) :
    Reader Window := do
  let n ← lengthsPart bytes stop indicator deltaLength
  let dataOffset ← position
  let instructionsOffset := dataOffset + n.data
  let addressesOffset := instructionsOffset + n.instructions
  failIf (addressesOffset + n.addresses ≠ stop)
    (.sectionsDoNotFill n.data n.instructions n.addresses deltaLength)
  let data ← slice bytes dataOffset n.data
  let instructions ← slice bytes instructionsOffset n.instructions
  let addresses ← slice bytes addressesOffset n.addresses
  return {
    offset, segment, deltaLength, dataOffset, data, instructions, addresses
    targetLength := n.target
    checksum := n.checksum }

def window : Reader Window := do
  let offset ← position
  let indicator ← indicatorByte bytes stop
  let segment ← segmentPart bytes stop (Window.originOf indicator)
  let deltaLength ← varint bytes stop
  within stop deltaLength fun deltaStop =>
    deltaPart bytes deltaStop offset indicator segment deltaLength

end Parts

/-! ### Agreement -/

section Agreement

variable {bytes : Bytes} {stop i : Nat} (hstop : stop ≤ bytes.length)
include hstop

/-- Where the header ends early, all bytes up to the end of its fixed part are missing. -/
lemma agrees_expect {start unit : Nat} {expected : Bytes} (hi : i ≤ stop)
    (hunit : i + unit = start + FileHeader.fixedSize) (hlength : expected.length ≤ unit) :
    Agrees bytes stop (expect bytes stop start expected) (FileHeader.expect unit expected) i := by
  induction expected generalizing i unit with
  | nil => exact agrees_pure () hi
  | cons b rest ih =>
    have hunit' : i = stop → start + FileHeader.fixedSize - stop = unit := by omega
    refine agrees_bind (agrees_byte hstop hi hunit') fun found j hfound hj => ?_
    have hj' : j = i + 1 := index_of_byte hfound
    refine agrees_bind (agrees_failIf _ _ hj) fun _ k hfail hk => ?_
    cases (eq_of_failIf hfail).2
    rw [List.length_cons] at hlength
    exact ih hk (by omega) (by omega)

lemma agrees_fixedPart (hi : i ≤ stop) :
    Agrees bytes stop (fixedPart bytes stop i) FileHeader.fixedPart i := by
  refine agrees_bind (agrees_expect hstop hi rfl (by decide)) fun _ j _ hj => ?_
  refine agrees_bind (agrees_need hstop hj) fun _ k hneed hk => ?_
  obtain ⟨htwo, hk'⟩ := eq_of_need hneed
  cases hk'
  refine agrees_bind (agrees_next hstop 2 (by omega)) fun found k hfound hk => ?_
  have hk' : k = j + 1 := index_of_next hfound
  refine agrees_bind (agrees_failIf _ _ hk) fun _ l hfail hl => ?_
  cases (eq_of_failIf hfail).2
  refine agrees_bind (agrees_next hstop 1 (by omega)) fun indicator m _ hm => ?_
  refine agrees_bind (agrees_failIf _ _ hm) fun _ m _ hm => ?_
  refine agrees_bind (agrees_failIf _ _ hm) fun _ m _ hm => ?_
  exact agrees_pure indicator hm

/-- The sizes and the table itself need no checks of their own once all of the section is there. -/
lemma agrees_tableSection :
    Agrees bytes stop (tableSection bytes stop) FileHeader.tableSection i := by
  refine agrees_bind (agrees_varint hstop) fun length j _ hj => ?_
  refine agrees_bind (agrees_failIf _ _ hj) fun _ k hfail hk => ?_
  obtain ⟨hlength, hk'⟩ := eq_of_failIf hfail
  cases hk'
  refine agrees_bind (agrees_need hstop hj) fun _ k hneed _ => ?_
  obtain ⟨hall, hk'⟩ := eq_of_need hneed
  cases hk'
  refine agrees_bind (agrees_next hstop 2 (by omega)) fun nearSize k hnear _ => ?_
  have hk : k = j + 1 := index_of_next hnear
  refine agrees_bind (agrees_next hstop 1 (by omega)) fun sameSize l hsame _ => ?_
  have hl : l = k + 1 := index_of_next hsame
  refine agrees_bind (agrees_nextAll hstop (by omega)) fun delta m _ hm => ?_
  exact agrees_pure _ hm

lemma agrees_tablePart (indicator : UInt8) (hi : i ≤ stop) :
    Agrees bytes stop (tablePart bytes stop indicator) (FileHeader.tablePart indicator) i := by
  unfold tablePart FileHeader.tablePart
  by_cases h : indicator &&& FileHeader.tableBit = 0
  · rw [if_pos h, if_pos h]
    exact agrees_pure none hi
  · rw [if_neg h, if_neg h]
    exact agrees_map some (agrees_tableSection hstop)

lemma agrees_applicationPart (indicator : UInt8) (hi : i ≤ stop) :
    Agrees bytes stop (applicationPart bytes stop indicator)
      (FileHeader.applicationPart indicator) i := by
  unfold applicationPart FileHeader.applicationPart
  by_cases h : indicator &&& FileHeader.applicationBit = 0
  · rw [if_pos h, if_pos h]
    exact agrees_pure none hi
  · rw [if_neg h, if_neg h]
    exact agrees_map some (agrees_bind (agrees_varint hstop) fun _ _ _ hj =>
      agrees_take hstop hj)

lemma agrees_fileHeader (hi : i ≤ stop) :
    Agrees bytes stop (fileHeader bytes stop) FileHeader.parser i := by
  refine agrees_bind (agrees_position hi) fun start j hstart hj => ?_
  cases hstart
  refine agrees_bind (agrees_fixedPart hstop hi) fun indicator j _ hj => ?_
  refine agrees_bind (agrees_tablePart hstop indicator hj) fun table k _ hk => ?_
  refine agrees_bind (agrees_applicationPart hstop indicator hk) fun application l _ hl => ?_
  refine agrees_bind (agrees_position hl) fun after m _ hm => ?_
  exact agrees_pure _ hm

lemma agrees_indicatorByte (hi : i ≤ stop) :
    Agrees bytes stop (indicatorByte bytes stop) Window.indicatorByte i := by
  refine agrees_bind (agrees_byte hstop hi fun _ => rfl) fun b j _ hj => ?_
  refine agrees_bind (agrees_failIf _ _ hj) fun _ k _ hk => ?_
  refine agrees_bind (agrees_failIf _ _ hk) fun _ l _ hl => ?_
  exact agrees_pure b hl

lemma agrees_segmentPart (origin : Option Origin) (hi : i ≤ stop) :
    Agrees bytes stop (segmentPart bytes stop origin) (Window.segmentPart origin) i := by
  cases origin with
  | none => exact agrees_pure none hi
  | some origin =>
    exact agrees_bind (agrees_varint hstop) fun _ _ _ _ =>
      agrees_bind (agrees_varint hstop) fun _ _ _ hk => agrees_pure _ hk

lemma agrees_checksumPart (indicator : UInt8) (hi : i ≤ stop) :
    Agrees bytes stop (checksumPart bytes stop indicator) (Window.checksumPart indicator) i := by
  unfold checksumPart Window.checksumPart
  by_cases h : indicator &&& Window.checksumBit = 0
  · rw [if_pos h, if_pos h]
    exact agrees_pure none hi
  · rw [if_neg h, if_neg h]
    exact agrees_map _ (agrees_take hstop hi)

lemma agrees_lengthsPart (indicator : UInt8) (deltaLength : Nat) :
    Agrees bytes stop (lengthsPart bytes stop indicator deltaLength)
      (Window.lengthsPart indicator deltaLength) i := by
  refine agrees_bind (agrees_orFault (agrees_varint hstop) _) fun target j _ hj => ?_
  refine agrees_bind (agrees_orFault (agrees_byte hstop hj fun _ => rfl) _) fun _ k _ hk => ?_
  refine agrees_bind (agrees_failIf _ _ hk) fun _ l _ hl => ?_
  refine agrees_bind (agrees_failIf _ _ hl) fun _ m _ _ => ?_
  refine agrees_bind (agrees_orFault (agrees_varint hstop) _) fun data m _ _ => ?_
  refine agrees_bind (agrees_orFault (agrees_varint hstop) _) fun instructions m _ _ => ?_
  refine agrees_bind (agrees_orFault (agrees_varint hstop) _) fun addresses m _ hm => ?_
  refine agrees_bind (agrees_orFault (agrees_checksumPart hstop indicator hm) _)
    fun checksum n _ hn => ?_
  exact agrees_pure _ hn

/-- The equality that is checked puts the three sections one after the other up to `stop`. -/
lemma agrees_deltaPart (offset : Nat) (indicator : UInt8) (segment : Option Segment)
    (deltaLength : Nat) :
    Agrees bytes stop (deltaPart bytes stop offset indicator segment deltaLength)
      (Window.deltaPart offset indicator segment deltaLength) i := by
  refine agrees_bind (agrees_lengthsPart hstop indicator deltaLength) fun n j _ hj => ?_
  refine agrees_bind (agrees_position hj) fun dataOffset k hposition hk => ?_
  cases hposition
  have hlength : (front bytes stop j).rest.length = stop - j := length_rest_front hstop
  have hahead : Parser.ahead (front bytes stop j)
      = .ok ((front bytes stop j).rest, front bytes stop j) := rfl
  by_cases hfill : j + n.data + n.instructions + n.addresses = stop
  case neg =>
    have hfill' : n.data + n.instructions + n.addresses ≠ (front bytes stop j).rest.length := by
      omega
    refine agrees_error (.invalid (.sectionsDoNotFill n.data n.instructions n.addresses
      deltaLength)) (run_bind_of_error (if_pos hfill)) ?_
    exact (Parser.bind_of_ok hahead).trans (Parser.bind_of_error (if_pos hfill'))
  case pos =>
    have hfill' : ¬ n.data + n.instructions + n.addresses ≠ (front bytes stop j).rest.length := by
      omega
    obtain ⟨hdata, hinstructions, haddresses⟩ :=
      @Bytes.sections_between bytes j stop n.data n.instructions n.addresses hfill
    have hnot : ¬ j + n.data + n.instructions + n.addresses ≠ stop := not_not.2 hfill
    let found : Window := {
      offset, segment, deltaLength
      targetLength := n.target
      checksum := n.checksum
      dataOffset := j
      data := bytes.between j (j + n.data)
      instructions := bytes.between (j + n.data) (j + n.data + n.instructions)
      addresses := bytes.between (j + n.data + n.instructions) stop }
    refine agrees_ok (a := found) ?_ ?_ hj
    · have hslice : slice bytes (j + n.data + n.instructions) n.addresses j
          = .ok (bytes.between (j + n.data + n.instructions)
            (j + n.data + n.instructions + n.addresses), j) := slice_of_le (by omega)
      rw [hfill] at hslice
      refine (run_bind_of_ok (failIf_of_not hnot)).trans ?_
      refine (run_bind_of_ok (slice_of_le (by omega))).trans ?_
      refine (run_bind_of_ok (slice_of_le (by omega))).trans ?_
      exact run_bind_of_ok hslice
    · refine (Parser.bind_of_ok hahead).trans ((Parser.bind_of_ok (if_neg hfill')).trans ?_)
      rw [front, Input.ofBytes, hdata, hinstructions, haddresses]
      rfl

lemma agrees_window (hi : i ≤ stop) : Agrees bytes stop (window bytes stop) Window.parser i := by
  refine agrees_bind (agrees_position hi) fun offset j hposition hj => ?_
  cases hposition
  refine agrees_bind (agrees_indicatorByte hstop hi) fun indicator j _ hj => ?_
  refine agrees_bind (agrees_segmentPart hstop _ hj) fun segment k _ _ => ?_
  refine agrees_bind (agrees_varint hstop) fun deltaLength l _ hl => ?_
  refine agrees_within hstop hl fun hle => ?_
  exact agrees_deltaPart (by omega) _ _ _ _

end Agreement

/-- What is read, without the index after it. -/
lemma map_of_mirrors {α : Type} {bytes : Bytes} {stop : Nat} {parsed : Except Halt (α × Input)}
    {read : Except Stop (α × Nat)} (h : Mirrors bytes stop parsed read) :
    (·.1) <$> read = ((·.1) <$> parsed).mapError Stop.halt := by
  rcases parsed with halt | ⟨a, j⟩
  · have hread : read = .error (.halt halt) := h
    rw [hread]
    rfl
  · obtain ⟨hread, -, -⟩ := h
    rw [hread]
    rfl

lemma ofOffset_eq_front {bytes : Bytes} {offset : Nat} (h : offset ≤ bytes.length) :
    Input.ofOffset bytes offset = front bytes bytes.length offset := by
  have hgap : offset - bytes.length = 0 := by omega
  have hrest : bytes.between offset bytes.length = bytes.drop offset := by
    rw [Bytes.between, ← List.length_drop, List.take_length]
  rw [Input.ofOffset, front, Input.ofBytes, hgap, hrest]

end Reader

/-! ### Parsing by index -/

def FileHeader.parseAt (bytes : Bytes) (offset : Nat) : Except Stop FileHeader :=
  (·.1) <$> Reader.fileHeader bytes bytes.length offset

def Window.parseAt (bytes : Bytes) (offset : Nat) : Except Stop Window :=
  (·.1) <$> Reader.window bytes bytes.length offset

section ParseAt

variable (bytes : Bytes) (offset : Nat)

/-- **Header bytes.** The header is read by index as it is parsed, so each byte that is read is
there. -/
theorem FileHeader.parseAt_eq :
    parseAt bytes offset = (parse (.ofOffset bytes offset)).mapError Stop.halt := by
  have hposition : Reader.position offset = .ok (offset, offset) := rfl
  rcases Nat.lt_or_ge bytes.length offset with hlt | hle
  · have hgap : 0 < (Input.ofOffset bytes offset).gap := Nat.sub_pos_of_lt hlt
    have hmissing : (Input.ofOffset bytes offset).gap + fixedSize
        = offset + fixedSize - bytes.length := by
      show offset - bytes.length + fixedSize = _
      omega
    have hbyte : Reader.byte bytes bytes.length (offset + fixedSize - bytes.length) offset
        = .error (.halt (.incomplete (offset + fixedSize - bytes.length))) :=
      if_pos (Nat.le_of_lt hlt)
    have hexpect : Reader.expect bytes bytes.length offset signature offset
        = .error (.halt (.incomplete (offset + fixedSize - bytes.length))) :=
      run_bind_of_error hbyte
    have hfixed : Reader.fixedPart bytes bytes.length offset offset
        = .error (.halt (.incomplete (offset + fixedSize - bytes.length))) :=
      run_bind_of_error hexpect
    have hread : Reader.fileHeader bytes bytes.length offset
        = .error (.halt (.incomplete (offset + fixedSize - bytes.length))) :=
      (run_bind_of_ok hposition).trans (run_bind_of_error hfixed)
    rw [parseAt, hread, parse, if_pos hgap, hmissing]
    rfl
  · have hgap : ¬ 0 < (Input.ofOffset bytes offset).gap := by
      rw [Nat.not_lt]
      exact Nat.le_of_eq (Nat.sub_eq_zero_of_le hle)
    have hagrees := Reader.agrees_fileHeader (Nat.le_refl bytes.length) hle
    rw [parseAt, parse, if_neg hgap, Reader.ofOffset_eq_front hle]
    exact Reader.map_of_mirrors hagrees

/-- **Window bytes.** A window is read by index as it is parsed, so each byte that is read is
there. -/
theorem Window.parseAt_eq :
    parseAt bytes offset = (parse (.ofOffset bytes offset)).mapError Stop.halt := by
  have hposition : Reader.position offset = .ok (offset, offset) := rfl
  rcases Nat.lt_or_ge bytes.length offset with hlt | hle
  · have hbyte : Reader.byte bytes bytes.length 1 offset = .error (.halt (.incomplete 1)) :=
      if_pos (Nat.le_of_lt hlt)
    have hindicator : Reader.indicatorByte bytes bytes.length offset
        = .error (.halt (.incomplete 1)) := run_bind_of_error hbyte
    have hread : Reader.window bytes bytes.length offset = .error (.halt (.incomplete 1)) :=
      (run_bind_of_ok hposition).trans (run_bind_of_error hindicator)
    have hparse : parser (.ofOffset bytes offset) = .error (.incomplete 1) := by
      rw [Input.ofOffset, List.drop_eq_nil_of_le (Nat.le_of_lt hlt)]
      rfl
    rw [parseAt, hread, parse, hparse]
    rfl
  · have hagrees := Reader.agrees_window (Nat.le_refl bytes.length) hle
    rw [parseAt, parse, Reader.ofOffset_eq_front hle]
    exact Reader.map_of_mirrors hagrees

end ParseAt

end Vcdiff
