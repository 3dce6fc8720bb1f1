import Vcdiff.Proofs.IndexedParsing
import Vcdiff.Proofs.Sections
import Vcdiff.Proofs.Trace

/-!
Decoding a delta by index. The header and the windows are read by index from the whole delta, and
the sections of a window are regions of the delta that are checked to lie in it. No byte is ever
fetched that is not there and no such check fails, so decoding comes to the same.
-/

namespace Vcdiff

abbrev TableReader := FileHeader → Except Stop CodeTable

namespace Session

section ByIndex

variable (s : Session) (bytes : Bytes) (offset : Nat)

def readHeaderAt (load : TableReader) : Except Stop FileHeader × Session :=
  if s.header.isSome then (.error (.ofFault .headerAlreadyRead), s)
  else
    match FileHeader.parseAt bytes offset with
    | .error stopped => (.error stopped, s)
    | .ok header =>
      match load header with
      | .error stopped => (.error stopped, s)
      | .ok table => (.ok header, s.install header table)

def openWindowAt : Except Stop (Window × Array UInt8) :=
  match Window.parseAt bytes offset with
  | .error (.halt (.incomplete missing)) =>
    match s.limits.checkEncoded (bytes.length - offset + missing) with
    | .error fault => .error (.ofFault fault)
    | .ok () => .error (.halt (.incomplete missing))
  | .error stopped => .error stopped
  | .ok window =>
    match s.sourceOf window with
    | .error fault => .error (.ofFault fault)
    | .ok source => .ok (window, source)

/-- The replay of a window at its start, if its sections are regions of the bytes. -/
def progressAt (window : Window) : Except Fault Progress := do
  let data ← Cursor.ofRegion "data section" bytes window.dataOffset window.instructionsOffset
  let instructions ←
    Cursor.ofRegion "instructions section" bytes window.instructionsOffset window.addressesOffset
  let addresses ← Cursor.ofRegion "addresses section" bytes window.addressesOffset window.stop
  return .start data instructions addresses s.cache

def decodeWindowAt : Except Stop DecodedWindow × Session :=
  if s.header.isNone then (.error (.ofFault .headerNotRead), s)
  else
    match s.openWindowAt bytes offset with
    | .error stopped => (.error stopped, s)
    | .ok (window, source) =>
      match s.progressAt bytes window with
      | .error fault => (.error (.ofFault fault), s)
      | .ok progress =>
        match Replay.run (s.taskOf window source) progress with
        | (.ok target, progress) =>
          (.ok ⟨target, window.size⟩,
            { s with cache := progress.cache, output := s.output ++ target })
        | (.error fault, progress) => (.error (.ofFault fault), { s with cache := progress.cache })

/-! ### One window -/

variable {s bytes offset}

lemma openWindowAt_eq :
    s.openWindowAt bytes offset
      = (s.openWindow (.ofOffset bytes offset)).mapError Stop.halt := by
  have havailable : (Input.ofOffset bytes offset).available = bytes.length - offset := by
    simp only [Input.available, Input.ofOffset, List.length_drop]
    omega
  rw [openWindowAt, openWindow, Window.parseAt_eq, havailable]
  rcases Window.parse (.ofOffset bytes offset) with (missing | fault) | w
  · simp only [Except.mapError]
    rcases s.limits.checkEncoded (bytes.length - offset + missing) with fault | ⟨⟩ <;> rfl
  · rfl
  · simp only [Except.mapError]
    rcases s.sourceOf w with fault | source <;> rfl

lemma progressAt_of_parse {w : Window} (h : Window.parse (.ofOffset bytes offset) = .ok w) :
    s.progressAt bytes w = .ok (s.progressOf w) := by
  obtain ⟨hdata, hinstructions, haddresses⟩ := Window.ofRegion_of_parse h s
  rw [progressAt, hdata, hinstructions, haddresses]
  rfl

lemma decodeWindowAt_eq :
    s.decodeWindowAt bytes offset
      = (s.decodeWindow (.ofOffset bytes offset)).map (·.mapError Stop.halt) id := by
  unfold decodeWindowAt decodeWindow
  by_cases hheader : s.header.isNone
  case pos =>
    rw [if_pos hheader, if_pos hheader]
    rfl
  case neg =>
    rw [if_neg hheader, if_neg hheader, openWindowAt_eq]
    rcases hopen : s.openWindow (.ofOffset bytes offset) with halt | ⟨w, source⟩
    · rfl
    · have hprogress : s.progressAt bytes w = .ok (s.progressOf w) :=
        progressAt_of_parse (parse_of_openWindow hopen)
      simp only [Except.mapError, hprogress]
      rcases Replay.run (s.taskOf w source) (s.progressOf w) with ⟨fault | target, progress⟩ <;> rfl

lemma size_pos_of_decodeWindowAt {d : DecodedWindow} {t : Session}
    (h : s.decodeWindowAt bytes offset = (.ok d, t)) : 0 < d.size := by
  rw [decodeWindowAt_eq] at h
  rcases hd : s.decodeWindow (.ofOffset bytes offset) with ⟨halt | found, u⟩
  · rw [hd] at h
    cases h
  · rw [hd] at h
    cases h
    exact size_pos_of_decodeWindow hd

end ByIndex

/-! ### All windows -/

def decodeWindowsAt (s : Session) (bytes : Bytes) (offset : Nat) : Except Stop Unit × Session :=
  if _hend : bytes.length ≤ offset then (.ok (), s)
  else
    match _h : s.decodeWindowAt bytes offset with
    | (.ok d, s) => decodeWindowsAt s bytes (offset + d.size)
    | (.error (.halt (.incomplete missing)), s) =>
      (.error (.ofFault (.windowCutOff offset missing)), s)
    | (.error stopped, s) => (.error stopped, s)
termination_by bytes.length - offset
decreasing_by
  have := size_pos_of_decodeWindowAt _h
  omega

variable {s : Session} {bytes : Bytes} {offset : Nat}

lemma rest_ofOffset_ne_nil (h : ¬ bytes.length ≤ offset) :
    (Input.ofOffset bytes offset).rest ≠ [] := by
  show bytes.drop offset ≠ []
  rw [Ne, List.drop_eq_nil_iff]
  exact h

lemma drop_ofOffset {size : Nat} (h : offset + size ≤ bytes.length) :
    (Input.ofOffset bytes offset).drop size = .ofOffset bytes (offset + size) := by
  have hgap : offset - bytes.length = offset + size - bytes.length := by omega
  simp only [Input.ofOffset, Input.drop, List.drop_drop, hgap]

/-- A window moves the offset on as far as it takes bytes off the input. -/
theorem decodeWindowsAt_eq (h : offset ≤ bytes.length) :
    s.decodeWindowsAt bytes offset
      = (s.decodeWindows (.ofOffset bytes offset)).map (·.mapError Stop.ofFault) id := by
  fun_induction decodeWindowsAt s bytes offset with
  | case1 s offset hend =>
    have hempty : (Input.ofOffset bytes offset).rest = [] := List.drop_eq_nil_of_le hend
    rw [decodeWindows_of_empty hempty]
    rfl
  | case2 s offset hend d t hd ih =>
    rw [decodeWindowAt_eq] at hd
    rcases hd' : s.decodeWindow (.ofOffset bytes offset) with ⟨halt | found, u⟩
    · rw [hd'] at hd
      cases hd
    · rw [hd'] at hd
      cases hd
      have hsize : d.size ≤ (bytes.drop offset).length := size_le_of_decodeWindow hd'
      rw [List.length_drop] at hsize
      have hnext : offset + d.size ≤ bytes.length := by omega
      rw [decodeWindows_of_window hd', drop_ofOffset hnext]
      exact ih hnext
  | case3 s offset hend missing t hd =>
    rw [decodeWindowAt_eq] at hd
    rcases hd' : s.decodeWindow (.ofOffset bytes offset) with ⟨halt | found, u⟩
    · rw [hd'] at hd
      cases hd
      rw [decodeWindows_of_halt (rest_ofOffset_ne_nil hend) hd']
      rfl
    · rw [hd'] at hd
      cases hd
  | case4 s offset hend stopped t hincomplete hd =>
    rw [decodeWindowAt_eq] at hd
    rcases hd' : s.decodeWindow (.ofOffset bytes offset) with ⟨(missing | fault) | found, u⟩
    · rw [hd'] at hd
      cases hd
      exact absurd rfl (hincomplete missing)
    · rw [hd'] at hd
      cases hd
      rw [decodeWindows_of_halt (rest_ofOffset_ne_nil hend) hd']
      rfl
    · rw [hd'] at hd
      cases hd

/-! ### Whole deltas -/

def decodeWithAt (s : Session) (load : TableReader) (delta : Bytes) :
    Except Stop (Array UInt8) × Session :=
  match s.readHeaderAt delta 0 load with
  | (.error (.halt (.incomplete missing)), s) => (.error (.ofFault (.headerCutOff missing)), s)
  | (.error stopped, s) => (.error stopped, s)
  | (.ok header, s) =>
    match s.decodeWindowsAt delta header.size with
    | (.ok (), s) => (.ok s.output, s)
    | (.error stopped, s) => (.error stopped, s)

variable {load : TableLoader} {loadAt : TableReader} {delta : Bytes}

lemma ofBytes_eq_ofOffset (bytes : Bytes) : Input.ofBytes 0 bytes = .ofOffset bytes 0 := by
  rw [Input.ofBytes, Input.ofOffset, Nat.zero_sub, List.drop_zero]

lemma readHeaderAt_eq (hload : ∀ header, loadAt header = (load header).mapError Stop.ofFault) :
    s.readHeaderAt delta 0 loadAt
      = (s.readHeaderWith load (.ofBytes 0 delta)).map (·.mapError Stop.halt) id := by
  unfold readHeaderAt readHeaderWith
  rw [FileHeader.parseAt_eq, ofBytes_eq_ofOffset]
  by_cases hheader : s.header.isSome
  case pos =>
    rw [if_pos hheader, if_pos hheader]
    rfl
  case neg =>
    rw [if_neg hheader, if_neg hheader]
    rcases FileHeader.parse (.ofOffset delta 0) with halt | header
    · rfl
    · simp only [Except.mapError, hload]
      rcases load header with fault | table <;> rfl

/-- The header that is read takes no more bytes than there are. -/
lemma size_le_of_readHeaderWith {header : FileHeader} {t : Session}
    (h : s.readHeaderWith load (.ofBytes 0 delta) = (.ok header, t)) :
    header.size ≤ delta.length := by
  unfold readHeaderWith at h
  split at h
  · cases h
  · split at h
    · cases h
    · rename_i found hparse
      split at h <;> cases h
      obtain ⟨used, rest, hrest, hsize, -⟩ := FileHeader.parse_local rfl hparse
      have hdelta : delta = used ++ rest := hrest
      rw [hdelta, List.length_append]
      omega

lemma decodeWithAt_eq (hload : ∀ header, loadAt header = (load header).mapError Stop.ofFault) :
    s.decodeWithAt loadAt delta
      = (s.decodeWith load delta).map (·.mapError Stop.ofFault) id := by
  unfold decodeWithAt decodeWith
  dsimp only
  rw [readHeaderAt_eq hload]
  rcases hread : s.readHeaderWith load (.ofBytes 0 delta) with ⟨(missing | fault) | header, t⟩
  · rfl
  · rfl
  · have hsize : header.size ≤ delta.length := size_le_of_readHeaderWith hread
    have hrest : (Input.ofBytes 0 delta).drop header.size = .ofOffset delta header.size := by
      rw [ofBytes_eq_ofOffset, drop_ofOffset (by omega), Nat.zero_add]
    simp only [Prod.map, Except.mapError, id_eq, decodeWindowsAt_eq hsize, hrest]
    rcases t.decodeWindows (.ofOffset delta header.size) with ⟨fault | ⟨⟩, u⟩ <;> rfl

end Session

def plainTableAt : TableReader := fun header =>
  if header.table.isSome then .error (.ofFault .nestedTable) else .ok .default

section Table

variable (canAllocate : Nat → Bool)

def decodeTableAt (delta : Bytes) : Except Stop (Array UInt8) :=
  match ((Session.start CodeTable.default.toBytes.toArray (tableLimits canAllocate)).decodeWithAt
    plainTableAt delta).1 with
  | .error (.halt (.invalid fault)) =>
    .error (.ofFault (if fault.kind = .limitExceeded then .decodedTableTooLarge else fault))
  | .error stopped => .error stopped
  | .ok bytes =>
    if bytes.size ≠ CodeTable.byteSize then .error (.ofFault (.decodedTableSize bytes.size))
    else .ok bytes

def loadTableAt : TableReader := fun header =>
  match header.table with
  | none => .ok .default
  | some declared => do
    let bytes ← decodeTableAt canAllocate declared.delta
    (CodeTable.ofBytes bytes.toList declared.nearSize declared.sameSize).mapError .ofFault

end Table

def decodeAt (dictionary : Array UInt8) (limits : Limits) (delta : Bytes) :
    Except Stop (Array UInt8) :=
  ((Session.start dictionary limits).decodeWithAt (loadTableAt limits.canAllocate) delta).1

lemma plainTableAt_eq (header : FileHeader) :
    plainTableAt header = (plainTable header).mapError Stop.ofFault := by
  unfold plainTableAt plainTable
  split <;> rfl

lemma decodeTableAt_eq (canAllocate : Nat → Bool) (delta : Bytes) :
    decodeTableAt canAllocate delta = (decodeTable canAllocate delta).mapError Stop.ofFault := by
  unfold decodeTableAt decodeTable
  rw [Session.decodeWithAt_eq plainTableAt_eq]
  rcases ((Session.start CodeTable.default.toBytes.toArray (tableLimits canAllocate)).decodeWith
    plainTable delta) with ⟨fault | bytes, t⟩
  · rfl
  · simp only [Prod.map, Except.mapError]
    split <;> rfl

lemma loadTableAt_eq (canAllocate : Nat → Bool) (header : FileHeader) :
    loadTableAt canAllocate header = (loadTable canAllocate header).mapError Stop.ofFault := by
  unfold loadTableAt loadTable
  rcases header.table with _ | declared
  · rfl
  · dsimp only
    rw [decodeTableAt_eq]
    rcases decodeTable canAllocate declared.delta with fault | bytes <;> rfl

/-- **Bytes of a delta.** Reading a delta by index, also the delta of a code table in it, comes to
the same as decoding it: no index is outside of the bytes, and no section of a window either. -/
theorem decodeAt_eq (dictionary : Array UInt8) (limits : Limits) (delta : Bytes) :
    decodeAt dictionary limits delta
      = (decode dictionary limits delta).mapError Stop.ofFault := by
  rw [decodeAt, decode, Session.decode, Session.decodeWithAt_eq (loadTableAt_eq _)]
  rfl

end Vcdiff
