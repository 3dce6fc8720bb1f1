import Vcdiff.Proofs.Chunking

/-!
What a stream keeps. No byte is lost and none is taken twice: the bytes written so far are the
header, the windows that have been decoded, and the bytes that wait for the rest of their window.
Those are fewer than an encoded window may have, since a window that asks for more is refused.
-/

namespace Vcdiff

namespace Session

variable {s t u : Session} {i : Input} {d : DecodedWindow}

/-- Encoded windows that the session decodes one after the other, each of them by itself: what it
makes of them, and the session after the last. -/
inductive Decodes : Session → List Bytes → List (Array UInt8) → Session → Prop
  | nil (s : Session) : Decodes s [] [] s
  | cons {s t u : Session} {window : Bytes} {output : Array UInt8} {windows : List Bytes}
      {outputs : List (Array UInt8)} :
      s.decodeWindow (.ofBytes 0 window) = (.ok ⟨output, window.length⟩, t) →
      Decodes t windows outputs u → Decodes s (window :: windows) (output :: outputs) u

/-- A header that has been read can be taken out of its delta. -/
lemma readHeader_alone {delta : Bytes} {header : FileHeader}
    (h : s.readHeader (.ofBytes 0 delta) = (.ok header, t)) :
    ∃ front, delta = front ++ delta.drop header.size ∧ front.length = header.size ∧
      s.readHeader (.ofBytes 0 front) = (.ok header, t) := by
  obtain ⟨-, hparse, -⟩ := exists_of_readHeader_ok h
  obtain ⟨front, rest, hrest, hsize, htail⟩ := FileHeader.parse_local rfl hparse
  have hdelta : delta = front ++ rest := hrest
  have hfront : FileHeader.parse (.ofBytes 0 front) = .ok header := by
    have := htail []
    rwa [List.append_nil] at this
  refine ⟨front, ?_, hsize, ?_⟩
  · rw [hdelta, ← hsize, List.drop_left]
  · rw [← h]
    exact readHeader_congr (hfront.trans hparse.symm)

/-- A window that has been decoded can be taken out of its delta. -/
lemma decodeWindow_alone (h : s.decodeWindow i = (.ok d, t)) (hgap : i.gap = 0) :
    ∃ window, i.rest = window ++ (i.drop d.size).rest ∧
      s.decodeWindow (.ofBytes 0 window) = (.ok ⟨d.output, window.length⟩, t) := by
  obtain ⟨window, rest, hrest, hsize, htail⟩ := decodeWindow_local h
  refine ⟨window, ?_, ?_⟩
  · rw [Input.drop, hrest, ← hsize, List.drop_left]
  · have hinput : { i with rest := window ++ [] } = (Input.ofBytes 0 window).shift i.position := by
      simp only [Input.ofBytes, Input.shift, List.append_nil, Nat.zero_add, hgap]
    have hshift := decodeWindow_shift s i.position (.ofBytes 0 window)
    rw [← hinput, htail []] at hshift
    rcases hwindow : s.decodeWindow (.ofBytes 0 window) with ⟨halt | found, t'⟩
    · rw [hwindow] at hshift
      cases hshift
    · rw [hwindow] at hshift
      cases hshift
      rw [hsize]

/-- The windows of a trace and what is left after them are the input. -/
theorem decodes_trace (hgap : i.gap = 0) (hopen : (s.trace i).Open) :
    ∃ windows, i.rest = windows.flatten ++ (s.trace i).rest.rest ∧
      s.Decodes windows ((s.trace i).windows.map Placed.output) (s.trace i).session := by
  fun_induction trace s i with
  | case1 s i hempty => exact ⟨[], rfl, .nil s⟩
  | case2 s i hne d t hd ih =>
    obtain ⟨window, hrest, halone⟩ := decodeWindow_alone hd hgap
    obtain ⟨windows, hwindows, hdecodes⟩ := ih hgap hopen
    refine ⟨window :: windows, ?_, .cons halone hdecodes⟩
    rw [hrest, hwindows, List.flatten_cons, List.append_assoc]
    rfl
  | case3 s i hne halt t hd =>
    rcases halt with missing | fault
    · obtain ⟨-, -, rfl⟩ := decodeWindow_incomplete hd
      exact ⟨[], rfl, .nil t⟩
    · exact absurd rfl (hopen fault)

lemma limits_trace (s : Session) (i : Input) : (s.trace i).session.limits = s.limits := by
  obtain ⟨cache, hsession, -⟩ := session_trace s i
  rw [hsession]

/-- A trace that stops inside a window has left fewer bytes than a window may have. -/
theorem rest_trace_lt (hgap : i.gap = 0) (hopen : (s.trace i).Open) :
    (s.trace i).rest.rest = [] ∨ ((s.trace i).rest.rest.length : Int) < s.limits.encodedWindow := by
  rcases hhalt : (s.trace i).halt with _ | (missing | fault)
  · exact .inl (rest_of_halt_none hhalt)
  · right
    obtain ⟨-, hwindow⟩ := decodeWindow_of_halt_incomplete hhalt
    obtain ⟨-, hincomplete, -⟩ := decodeWindow_incomplete hwindow
    obtain ⟨hparse, hle⟩ := openWindow_incomplete hincomplete
    have hmissing : 0 < missing := (Window.parse_patient hparse).1
    have hrest : (s.trace i).rest.gap = 0 := by
      obtain ⟨n, -, hrest, -⟩ := rest_trace s i
      rw [hrest]
      exact hgap
    rw [limits_trace, Input.available, hrest] at hle
    omega
  · exact absurd hhalt (hopen fault)

end Session

namespace Stream

variable {stream next : Stream} {s : Session} {front : Bytes} {chunks : List Bytes}
  {dictionary : Array UInt8} {limits : Limits}

/-- **Buffering.** After writes that have not failed, the bytes written are those of the header,
once it has been read, those of the windows whose targets were given, and those still kept, of which
there are none or fewer than an encoded window may have. -/
theorem pending_of_writeAll (h : ((start dictionary limits).writeAll chunks).2 = .ok next) :
    match next.session.header with
    | none => next.pending = chunks.flatten ∧
        ((start dictionary limits).writeAll chunks).1.flatten = []
    | some header => ∃ front windows outputs t,
        (Session.start dictionary limits).readHeader (.ofBytes 0 front) = (.ok header, t) ∧
          front.length = header.size ∧ t.Decodes windows outputs next.session ∧
          chunks.flatten = front ++ windows.flatten ++ next.pending ∧
          ((start dictionary limits).writeAll chunks).1.flatten
            = outputs.filter (!·.isEmpty) ∧
          (next.pending = [] ∨ (next.pending.length : Int) < limits.encodedWindow) := by
  have hemitted : ((start dictionary limits).writeAll chunks).1.flatten
      = ((Session.start dictionary limits).traceDelta chunks.flatten).emitted :=
    emitted_feed dictionary limits chunks
  have hfollows := follows_writeAll (follows_start dictionary limits) h
  obtain ⟨-, hsession, hpending, hopen⟩ := hfollows
  rw [List.nil_append] at hsession hpending hopen
  rcases hread : (Session.start dictionary limits).readHeader (.ofBytes 0 chunks.flatten) with
    ⟨halt | header, t⟩
  · rw [Session.traceDelta_of_error hread] at hsession hpending hemitted
    rw [hsession]
    exact ⟨hpending, hemitted⟩
  · have hheader : next.session.header = some header := by
      rw [hsession, Session.header_of_traceDelta hread]
    rw [hheader]
    obtain ⟨front, hfront, hsize, halone⟩ := Session.readHeader_alone hread
    rw [Session.traceDelta_of_ok hread] at hsession hpending hopen hemitted
    obtain ⟨windows, hwindows, hdecodes⟩ := Session.decodes_trace rfl hopen
    have hrest : chunks.flatten.drop header.size = windows.flatten ++ next.pending := by
      rw [hpending]
      exact hwindows
    have hlimits : t.limits = limits := by
      obtain ⟨-, -, table, -, rfl⟩ := Session.exists_of_readHeader_ok hread
      rfl
    refine ⟨front, windows, _, t, halone, hsize, ?_, ?_, hemitted, ?_⟩
    · rw [hsession]
      exact hdecodes
    · rw [List.append_assoc, ← hrest]
      exact hfront
    · rw [hpending, ← hlimits]
      exact Session.rest_trace_lt rfl hopen

/-- The third write ends inside the second window. -/
theorem pending_of_writeAll_twoWindows :
    let chunks := [twoWindows.take 5, [], (twoWindows.drop 5).take 20]
    ∃ (next : Stream) (front : Bytes) (windows : List Bytes) (outputs : List (Array UInt8))
        (t : Session),
      ((start #[1, 2, 3, 4, 5] (.default ample)).writeAll chunks).2 = .ok next ∧
        t.Decodes windows outputs next.session ∧ [#[97, 98, 99]] = outputs.filter (!·.isEmpty) ∧
        next.pending = [5, 5, 0, 11, 4, 0] ∧
        chunks.flatten = front ++ windows.flatten ++ next.pending ∧ front.length = 8 := by
  intro chunks
  rcases hresult : ((start #[1, 2, 3, 4, 5] (.default ample)).writeAll chunks).2 with fault | next
  · have hisOk : ((start #[1, 2, 3, 4, 5] (.default ample)).writeAll chunks).2.isOk := by
      decide +kernel
    rw [hresult] at hisOk
    cases hisOk
  · have hnext : ((start #[1, 2, 3, 4, 5] (.default ample)).writeAll chunks).2.toOption.map
          (fun next => (next.session.header.map FileHeader.size, next.pending))
        = some (some 8, [5, 5, 0, 11, 4, 0]) := by
      decide +kernel
    have hemitted : ((start #[1, 2, 3, 4, 5] (.default ample)).writeAll chunks).1.flatten
        = [#[97, 98, 99]] := by
      decide +kernel
    rw [hresult] at hnext
    obtain ⟨hsize, hpending⟩ := Prod.mk.inj (Option.some.inj hnext)
    obtain ⟨header, hheader, hsize⟩ := Option.map_eq_some_iff.1 hsize
    have hkept := pending_of_writeAll hresult
    rw [hheader, hemitted] at hkept
    obtain ⟨front, windows, outputs, t, -, hfront, hdecodes, hflatten, houtputs, -⟩ := hkept
    exact ⟨next, front, windows, outputs, t, rfl, hdecodes, houtputs, hpending, hflatten,
      hfront.trans hsize⟩

end Stream

end Vcdiff
