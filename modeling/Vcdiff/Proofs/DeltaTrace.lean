import Vcdiff.Proofs.Trace

/-!
The trace of a session over a whole delta, which begins with the file header. What a decoder makes
of a delta is what its trace says, and the windows of a delta that is cut off are those windows of
the whole that end before the cut.
-/

namespace Vcdiff

namespace Session

variable {s : Session} {delta : Bytes}

def traceDelta (s : Session) (delta : Bytes) : Trace :=
  match s.readHeader (.ofBytes 0 delta) with
  | (.error halt, t) => ⟨[], t, .ofBytes 0 delta, some halt⟩
  | (.ok header, t) => t.trace ((Input.ofBytes 0 delta).drop header.size)

lemma traceDelta_of_error {halt : Halt} {t : Session}
    (h : s.readHeader (.ofBytes 0 delta) = (.error halt, t)) :
    s.traceDelta delta = ⟨[], s, .ofBytes 0 delta, some halt⟩ := by
  cases session_of_readHeader_error h
  rw [traceDelta, h]

lemma traceDelta_of_ok {header : FileHeader} {t : Session}
    (h : s.readHeader (.ofBytes 0 delta) = (.ok header, t)) :
    s.traceDelta delta = t.trace ((Input.ofBytes 0 delta).drop header.size) := by
  rw [traceDelta, h]

/-! ### Decoding -/

/-- What a decoder makes of a header that it cannot read, when no more bytes come. -/
def headerFault : Halt → Fault
  | .incomplete missing => .headerCutOff missing
  | .invalid fault => fault

lemma decode_of_error {halt : Halt} {t : Session}
    (h : s.readHeader (.ofBytes 0 delta) = (.error halt, t)) :
    s.decode delta = (.error (headerFault halt), t) := by
  rw [decode, decodeWith]
  rw [readHeader] at h
  rcases halt with missing | fault <;> simp only [h, headerFault]

lemma decode_of_ok {header : FileHeader} {t : Session}
    (h : s.readHeader (.ofBytes 0 delta) = (.ok header, t)) :
    s.decode delta = match (s.traceDelta delta).verdict with
      | .ok () => (.ok (s.traceDelta delta).session.output, (s.traceDelta delta).session)
      | .error fault => (.error fault, (s.traceDelta delta).session) := by
  rw [traceDelta_of_ok h]
  rw [readHeader] at h
  simp only [decode, decodeWith, h, decodeWindows_eq]
  rcases (t.trace ((Input.ofBytes 0 delta).drop header.size)).verdict with fault | ⟨⟩ <;> rfl

lemma decode_of_halt_none (h : (s.traceDelta delta).halt = none) :
    (s.decode delta).1 = .ok (s.traceDelta delta).session.output := by
  rcases hread : s.readHeader (.ofBytes 0 delta) with ⟨halt | header, t⟩
  · rw [traceDelta_of_error hread] at h
    cases h
  · rw [decode_of_ok hread]
    simp only [Trace.verdict, h]

/-- A delta that is cut off is truncated input. -/
lemma decode_of_halt_incomplete {missing : Nat}
    (h : (s.traceDelta delta).halt = some (.incomplete missing)) :
    ∃ fault, (s.decode delta).1 = .error fault ∧ fault.kind = .truncatedInput := by
  rcases hread : s.readHeader (.ofBytes 0 delta) with ⟨halt | header, t⟩
  · rw [traceDelta_of_error hread] at h
    cases h
    rw [decode_of_error hread]
    exact ⟨_, rfl, rfl⟩
  · rw [decode_of_ok hread]
    simp only [Trace.verdict, h]
    exact ⟨_, rfl, rfl⟩

lemma decode_of_halt_invalid {fault : Fault}
    (h : (s.traceDelta delta).halt = some (.invalid fault)) :
    (s.decode delta).1 = .error fault := by
  rcases hread : s.readHeader (.ofBytes 0 delta) with ⟨halt | header, t⟩
  · rw [traceDelta_of_error hread] at h
    cases h
    rw [decode_of_error hread, headerFault]
  · rw [decode_of_ok hread]
    simp only [Trace.verdict, h]

/-! ### Further bytes -/

variable {front : Bytes}

lemma readHeader_append {header : FileHeader} {t : Session}
    (h : s.readHeader (.ofBytes 0 front) = (.ok header, t)) (more : Bytes) :
    s.readHeader (.ofBytes 0 (front ++ more)) = (.ok header, t) ∧ header.size ≤ front.length := by
  obtain ⟨-, hparse, -⟩ := exists_of_readHeader_ok h
  obtain ⟨used, rest, hrest, hsize, htail⟩ := FileHeader.parse_local rfl hparse
  simp only [Input.ofBytes] at hrest htail
  constructor
  · rw [← h]
    refine readHeader_congr ?_
    rw [hparse, hrest, List.append_assoc]
    exact htail (rest ++ more)
  · rw [hrest, List.length_append]
    omega

lemma readHeader_append_of_invalid {fault : Fault} {t : Session}
    (h : s.readHeader (.ofBytes 0 front) = (.error (.invalid fault), t)) (more : Bytes) :
    s.readHeader (.ofBytes 0 (front ++ more)) = (.error (.invalid fault), t) := by
  by_cases hsome : s.header.isSome
  case pos =>
    rw [readHeader_of_isSome hsome] at h ⊢
    exact h
  case neg =>
    rw [← h]
    refine readHeader_congr ?_
    rcases hparse : FileHeader.parse (.ofBytes 0 front) with (missing | found) | header
    · rw [readHeader_of_error hsome hparse] at h
      cases h
    · exact FileHeader.parse_final hparse more
    · obtain ⟨used, rest, hrest, -, htail⟩ := FileHeader.parse_local rfl hparse
      simp only [Input.ofBytes] at hrest htail
      rw [hrest, List.append_assoc]
      exact htail (rest ++ more)

/-- A header that is not all there takes more than the bytes that are. -/
lemma length_lt_of_readHeader_append {header : FileHeader} {missing : Nat} {more : Bytes}
    {t u : Session} (h : s.readHeader (.ofBytes 0 front) = (.error (.incomplete missing), t))
    (hmore : s.readHeader (.ofBytes 0 (front ++ more)) = (.ok header, u)) :
    front.length < header.size := by
  obtain ⟨hsome, hparse, -⟩ := exists_of_readHeader_ok hmore
  obtain ⟨used, rest, hrest, hsize, htail⟩ := FileHeader.parse_local rfl hparse
  simp only [Input.ofBytes] at hrest htail
  by_contra hle
  obtain ⟨m, hm⟩ : used <+: front :=
    List.prefix_of_prefix_length_le ⟨rest, hrest.symm⟩ ⟨more, rfl⟩ (by omega)
  have hfront : FileHeader.parse (.ofBytes 0 front) = .ok header := by
    rw [← hm]
    exact htail m
  rw [readHeader_congr (hfront.trans hparse.symm), hmore] at h
  cases h

lemma header_of_traceDelta {header : FileHeader} {t : Session}
    (h : s.readHeader (.ofBytes 0 delta) = (.ok header, t)) :
    (s.traceDelta delta).session.header = some header := by
  obtain ⟨-, -, table, -, rfl⟩ := exists_of_readHeader_ok h
  obtain ⟨cache, hsession, -⟩ := session_trace (s.install header table)
      ((Input.ofBytes 0 delta).drop header.size)
  rw [traceDelta_of_ok h, hsession]
  simp only [install]

/-- Once the header has been read, an open trace goes on where it stopped. -/
theorem traceDelta_append (hheader : (s.traceDelta front).session.header.isSome)
    (hnone : ¬ s.header.isSome) (hopen : (s.traceDelta front).Open) (more : Bytes) :
    s.traceDelta (front ++ more)
      = ((s.traceDelta front).session.trace ((s.traceDelta front).rest.extend more)).prepend
          (s.traceDelta front).windows := by
  rcases hread : s.readHeader (.ofBytes 0 front) with ⟨halt | header, t⟩
  · rw [traceDelta_of_error hread] at hheader
    exact absurd hheader hnone
  · obtain ⟨hmore, hsize⟩ := readHeader_append hread more
    rw [traceDelta_of_ok hread] at hopen ⊢
    rw [traceDelta_of_ok hmore, ← trace_extend hopen more]
    exact congrArg t.trace (Input.drop_extend (i := .ofBytes 0 front) hsize more)

lemma gap_rest_traceDelta (s : Session) (delta : Bytes) : (s.traceDelta delta).rest.gap = 0 := by
  rcases hread : s.readHeader (.ofBytes 0 delta) with ⟨halt | header, t⟩
  · rw [traceDelta_of_error hread]
    rfl
  · obtain ⟨n, -, hrest, -⟩ := rest_trace t ((Input.ofBytes 0 delta).drop header.size)
    rw [traceDelta_of_ok hread, hrest]
    rfl

/-- Before that, there is nothing to go on from. -/
lemma traceDelta_of_not_isSome (hheader : ¬ (s.traceDelta delta).session.header.isSome) :
    ∃ halt, s.readHeader (.ofBytes 0 delta) = (.error halt, s) ∧
      s.traceDelta delta = ⟨[], s, .ofBytes 0 delta, some halt⟩ := by
  rcases hread : s.readHeader (.ofBytes 0 delta) with ⟨halt | header, t⟩
  · cases session_of_readHeader_error hread
    exact ⟨halt, rfl, traceDelta_of_error hread⟩
  · rw [header_of_traceDelta hread] at hheader
    exact absurd rfl hheader

/-- A trace that ends in a fault keeps its windows when more bytes come, and ends in a fault. -/
theorem traceDelta_append_of_fault {fault : Fault}
    (hfault : (s.traceDelta front).halt = some (.invalid fault)) (more : Bytes) :
    (s.traceDelta (front ++ more)).windows = (s.traceDelta front).windows ∧
      ∃ found, (s.traceDelta (front ++ more)).halt = some (.invalid found) ∧
        (found = fault ∨ ∃ size, fault = .encodedWindowTooLarge size s.limits.encodedWindow) := by
  rcases hread : s.readHeader (.ofBytes 0 front) with ⟨halt | header, t⟩
  · rw [traceDelta_of_error hread] at hfault
    cases hfault
    rw [traceDelta_of_error hread, traceDelta_of_error (readHeader_append_of_invalid hread more)]
    exact ⟨rfl, fault, rfl, .inl rfl⟩
  · obtain ⟨hmore, hsize⟩ := readHeader_append hread more
    have hlimits : t.limits = s.limits := by
      obtain ⟨-, -, table, -, rfl⟩ := exists_of_readHeader_ok hread
      rfl
    have hdrop := Input.drop_extend (i := .ofBytes 0 front) hsize more
    rw [traceDelta_of_ok hread] at hfault ⊢
    rw [traceDelta_of_ok hmore, ← hlimits]
    have := trace_extend_of_fault hfault more
    rwa [← hdrop] at this

/-- The windows end after the header. -/
lemma size_lt_stop {header : FileHeader} {t : Session}
    (h : s.readHeader (.ofBytes 0 delta) = (.ok header, t)) :
    ∀ w ∈ (s.traceDelta delta).windows, header.size < w.stop := by
  obtain ⟨_, _, _, hstops⟩ := rest_trace t ((Input.ofBytes 0 delta).drop header.size)
  rw [traceDelta_of_ok h]
  intro w hw
  have hlt := (hstops w hw).1
  simp only [Input.drop, Input.ofBytes] at hlt
  omega

/-- A trace stops at the end of the header or of its last window, before what is left. -/
lemma stop_traceDelta {header : FileHeader} {t : Session}
    (h : s.readHeader (.ofBytes 0 delta) = (.ok header, t)) :
    ∃ stop ∈ header.size :: (s.traceDelta delta).windows.map Placed.stop,
      header.size ≤ stop ∧ stop + (s.traceDelta delta).rest.rest.length = delta.length ∧
      ∀ w ∈ (s.traceDelta delta).windows, w.stop ≤ stop := by
  obtain ⟨-, hsize⟩ := readHeader_append h []
  obtain ⟨n, hn, hrest, hstops⟩ := rest_trace t ((Input.ofBytes 0 delta).drop header.size)
  have hlast := position_rest_trace t ((Input.ofBytes 0 delta).drop header.size)
  have hstart : ((Input.ofBytes 0 delta).drop header.size).position = header.size :=
    Nat.zero_add _
  have hposition : (t.trace ((Input.ofBytes 0 delta).drop header.size)).rest.position
      = header.size + n := by
    rw [hrest, Input.drop, hstart]
  have hlength : (t.trace ((Input.ofBytes 0 delta).drop header.size)).rest.rest.length
      = delta.length - header.size - n := by
    rw [hrest, Input.length_rest_drop, Input.length_rest_drop]
    rfl
  have hall : (Input.ofBytes 0 delta).rest.length = delta.length := rfl
  rw [Input.length_rest_drop, hall] at hn
  rw [hstart] at hstops hlast
  rw [hposition] at hlast
  rw [traceDelta_of_ok h, hlength]
  refine ⟨header.size + n, ?_, by omega, by omega, fun w hw => (hstops w hw).2⟩
  rcases hlast with hfirst | ⟨w, hw, hstop⟩
  · exact List.mem_cons.2 (.inl hfirst)
  · exact List.mem_cons_of_mem _ (List.mem_map.2 ⟨w, hw, hstop⟩)

/-- With the header read, nothing is left of a delta just when nothing stops its trace. -/
lemma halt_eq_none_iff {header : FileHeader} {t : Session} (hopen : (s.traceDelta delta).Open)
    (h : s.readHeader (.ofBytes 0 delta) = (.ok header, t)) :
    (s.traceDelta delta).halt = none ↔ (s.traceDelta delta).rest.rest = [] := by
  rw [traceDelta_of_ok h] at hopen ⊢
  constructor
  · exact rest_of_halt_none
  · intro hempty
    rcases hhalt : (t.trace ((Input.ofBytes 0 delta).drop header.size)).halt with
      _ | (missing | fault)
    · rfl
    · exact absurd hempty (decodeWindow_of_halt_incomplete hhalt).1
    · exact absurd hhalt (hopen fault)

/-- **A cut keeps the windows before it.** The windows of an open trace are those of any longer
delta that end in the part that is there. -/
theorem windows_traceDelta_append (hnone : ¬ s.header.isSome)
    (hopen : (s.traceDelta front).Open) (more : Bytes) :
    (s.traceDelta front).windows
      = (s.traceDelta (front ++ more)).windows.filter (·.stop ≤ front.length) := by
  rcases hread : s.readHeader (.ofBytes 0 front) with ⟨(missing | fault) | header, t⟩
  · -- no window ends before the header does
    have hlate : ∀ w ∈ (s.traceDelta (front ++ more)).windows, front.length < w.stop := by
      rcases hmore : s.readHeader (.ofBytes 0 (front ++ more)) with ⟨halt | header, u⟩
      · rw [traceDelta_of_error hmore]
        simp
      · have hlong := length_lt_of_readHeader_append hread hmore
        exact fun w hw => Nat.lt_trans hlong (size_lt_stop hmore w hw)
    rw [traceDelta_of_error hread, eq_comm, List.filter_eq_nil_iff]
    intro w hw
    simpa using hlate w hw
  · rw [traceDelta_of_error hread] at hopen
    exact absurd rfl (hopen fault)
  · have hheader : (s.traceDelta front).session.header.isSome := by
      rw [header_of_traceDelta hread]
      rfl
    have happend := traceDelta_append hheader hnone hopen more
    have hsize := (readHeader_append hread more).2
    obtain ⟨stop, -, -, hstop, hearly⟩ := stop_traceDelta hread
    rw [traceDelta_of_ok hread] at hopen happend hstop hearly ⊢
    have hend : ((Input.ofBytes 0 front).drop header.size).position
        + ((Input.ofBytes 0 front).drop header.size).rest.length = front.length := by
      rw [Input.length_rest_drop]
      simp only [Input.drop, Input.ofBytes]
      omega
    have hlate := lt_stop_of_trace_extend hopen more
    rw [happend, Trace.prepend, List.filter_append, List.filter_eq_self.2, List.filter_eq_nil_iff.2,
      List.append_nil]
    · intro w hw
      have := hlate w hw
      simp only [decide_eq_true_eq]
      omega
    · intro w hw
      have := hearly w hw
      simp only [decide_eq_true_eq]
      omega

lemma open_of_append {more : Bytes} (h : (s.traceDelta (front ++ more)).Open) :
    (s.traceDelta front).Open := by
  intro fault hfault
  obtain ⟨-, found, hfound, -⟩ := traceDelta_append_of_fault hfault more
  exact h found hfound

/-- The output of a session grows by the targets of the windows. -/
lemma output_traceDelta (s : Session) (delta : Bytes) :
    (s.traceDelta delta).session.output
      = s.output ++ joined ((s.traceDelta delta).windows.map Placed.output) := by
  rcases hread : s.readHeader (.ofBytes 0 delta) with ⟨halt | header, t⟩
  · simp [traceDelta_of_error hread]
  · obtain ⟨-, -, table, -, rfl⟩ := exists_of_readHeader_ok hread
    obtain ⟨cache, hsession, -⟩ := session_trace (s.install header table)
      ((Input.ofBytes 0 delta).drop header.size)
    rw [traceDelta_of_ok hread]
    exact congrArg Session.output hsession

end Session

/-- The windows of a delta, up to the first that does not decode. -/
def windowsOf (dictionary : Array UInt8) (limits : Limits) (delta : Bytes) : List Placed :=
  ((Session.start dictionary limits).traceDelta delta).windows

/-- An application header, a window that adds three bytes, and one that copies four from the
dictionary and has a checksum. -/
def twoWindows : Bytes :=
  [0xd6, 0xc3, 0xc4, 0, 4, 2, 7, 7] ++ [0, 9, 3, 0, 3, 1, 0, 97, 98, 99, 4]
    ++ [5, 5, 0, 11, 4, 0, 0, 1, 1, 0, 34, 0, 15, 20, 1]

lemma windowsOf_twoWindows : windowsOf #[1, 2, 3, 4, 5] (.default ample) twoWindows
    = [⟨19, #[97, 98, 99]⟩, ⟨34, #[2, 3, 4, 5]⟩] := by
  decide +kernel

lemma decode_twoWindows :
    decode #[1, 2, 3, 4, 5] (.default ample) twoWindows = .ok #[97, 98, 99, 2, 3, 4, 5] := by
  decide +kernel

/-- With another last byte the checksum is wrong. -/
lemma decode_twoWindows_set : ∃ fault,
    decode #[1, 2, 3, 4, 5] (.default ample) (twoWindows.set 31 16) = .error fault ∧
      fault.kind = .checksumMismatch := by
  have hkind : (decode #[1, 2, 3, 4, 5] (.default ample)
      (twoWindows.set 31 16)).mapError Fault.kind = .error .checksumMismatch := by
    decide +kernel
  rcases hdecode : decode #[1, 2, 3, 4, 5] (.default ample) (twoWindows.set 31 16) with
    fault | output
  · rw [hdecode] at hkind
    exact ⟨fault, rfl, Except.error.inj hkind⟩
  · rw [hdecode] at hkind
    cases hkind

end Vcdiff
