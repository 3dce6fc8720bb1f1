import Vcdiff.Proofs.Limits

/-!
What a delta takes from the dictionary. Its windows declare which segments of the dictionary they
copy from, and no other byte of it counts: against a dictionary that has those segments, the delta
decodes to the same. A copy that runs over the end of its segment goes on in the target, so what
lies behind the segment in the dictionary does not count either.
-/

namespace Vcdiff

/-! ### The windows that a delta declares -/

namespace Window

variable {i : Input} {w : Window}

def parseAll (input : Input) : List Window :=
  match _h : parse input with
  | .ok w => w :: parseAll (input.drop w.size)
  | .error _ => []
termination_by input.rest.length
decreasing_by
  have := size_pos_of_parse _h
  have := size_le_of_parse _h
  rw [Input.length_rest_drop]
  omega

lemma parseAll_of_ok (h : parse i = .ok w) : parseAll i = w :: parseAll (i.drop w.size) := by
  rw [parseAll]
  split <;> simp_all

lemma parseAll_of_empty (h : i.rest = []) : parseAll i = [] := by
  rw [parseAll]
  split
  · rename_i w hparse
    have hpos := size_pos_of_parse hparse
    have hle := size_le_of_parse hparse
    rw [h, List.length_nil] at hle
    omega
  · rfl

end Window

/-- The windows of a delta as they are written, whatever they decode to. -/
def declaredWindows (delta : Bytes) : List Window :=
  match FileHeader.parse (.ofBytes 0 delta) with
  | .ok header => Window.parseAll ((Input.ofBytes 0 delta).drop header.size)
  | .error _ => []

/-- The second dictionary has all that the windows take from the first. -/
def Provides (dictionary other : Array UInt8) (windows : List Window) : Prop :=
  ∀ w ∈ windows, ∀ segment, w.segment = some segment → segment.origin = .dictionary →
    segment.stop ≤ other.size ∧
      other.extract segment.offset segment.stop = dictionary.extract segment.offset segment.stop

/-- The dictionary reaches as far as the windows take from it. -/
def Reaches (dictionary : Array UInt8) (windows : List Window) : Prop :=
  ∀ w ∈ windows, ∀ segment, w.segment = some segment → segment.origin = .dictionary →
    segment.stop ≤ dictionary.size

/-- A dictionary that reaches so far still provides all that with more bytes behind it. -/
lemma Reaches.provides {dictionary : Array UInt8} {windows : List Window}
    (h : Reaches dictionary windows) (more : Array UInt8) :
    Provides dictionary (dictionary ++ more) windows := by
  intro w hw segment hsegment horigin
  have hstop := h w hw segment hsegment horigin
  refine ⟨by rw [Array.size_append]; omega, ?_⟩
  rw [Array.extract_append, Nat.sub_eq_zero_of_le hstop]
  simp

namespace Session

variable {s t : Session} {i : Input} {d : DecodedWindow} {w : Window} {source : Array UInt8}
  {other : Array UInt8}

def against (s : Session) (other : Array UInt8) : Session := { s with dictionary := other }

/-! ### One window -/

lemma segmentBytes_against (h : s.segmentBytes w.segment = .ok source)
    (hprovides : Provides s.dictionary other [w]) :
    (s.against other).segmentBytes w.segment = .ok source := by
  rcases hsegment : w.segment with _ | segment
  · rw [hsegment] at h
    exact h
  · rw [hsegment] at h
    rcases horigin : segment.origin with _ | _
    · obtain ⟨hstop, hbytes⟩ :=
        hprovides w (List.mem_singleton_self w) segment hsegment horigin
      have hother : ¬ (s.against other).dictionary.size < segment.stop := Nat.not_lt.2 hstop
      simp only [segmentBytes, horigin] at h ⊢
      rw [if_neg hother]
      split at h
      · cases h
      · rw [← h]
        exact congrArg Except.ok hbytes
    · simp only [segmentBytes, horigin] at h ⊢
      exact h

lemma reaches_of_segmentBytes (h : s.segmentBytes w.segment = .ok source) :
    Reaches s.dictionary [w] := by
  intro v hv segment hsegment horigin
  rw [List.mem_singleton.1 hv] at hsegment
  simp only [hsegment, segmentBytes, horigin] at h
  split at h
  · cases h
  · omega

/-- A window that has been decoded is decoded against any dictionary that provides its segment. -/
lemma decodeWindow_against (h : s.decodeWindow i = (.ok d, t)) (hw : Window.parse i = .ok w)
    (hprovides : Provides s.dictionary other [w]) :
    (s.against other).decodeWindow i = (.ok d, t.against other) := by
  obtain ⟨hheader, w', source, progress, hopen, hrun, hsize, rfl⟩ := replay_of_decodeWindow h
  obtain ⟨hparse, hsource⟩ := openWindow_eq_ok_iff.1 hopen
  obtain ⟨hallow, hsegment⟩ := sourceOf_eq_ok_iff.1 hsource
  cases hw.symm.trans hparse
  -- the replay sees the dictionary only through the bytes of the segment
  have hopen' : (s.against other).openWindow i = .ok (w, source) :=
    openWindow_eq_ok_iff.2 ⟨hparse, sourceOf_eq_ok_iff.2
      ⟨hallow, segmentBytes_against hsegment hprovides⟩⟩
  have hrun' : Replay.run ((s.against other).taskOf w source) ((s.against other).progressOf w)
      = (.ok d.output, progress) := hrun
  have hheader' : (s.against other).header.isSome := hheader
  rw [decodeWindow_of_ok hheader' hopen', hrun', ← hsize]
  rfl

/-! ### All windows -/

/-- The windows that have been decoded stand in the input one after the other. -/
lemma parseAll_of_decodeWindow (h : s.decodeWindow i = (.ok d, t)) :
    ∃ w, Window.parse i = .ok w ∧ Reaches s.dictionary [w] ∧ t.dictionary = s.dictionary ∧
      Window.parseAll i = w :: Window.parseAll (i.drop d.size) := by
  obtain ⟨-, w, source, progress, hopen, -, hsize, rfl⟩ := replay_of_decodeWindow h
  obtain ⟨hparse, hsource⟩ := openWindow_eq_ok_iff.1 hopen
  refine ⟨w, hparse, reaches_of_segmentBytes (sourceOf_eq_ok_iff.1 hsource).2, rfl, ?_⟩
  rw [hsize]
  exact Window.parseAll_of_ok hparse

/-- Against a dictionary that provides the segments of all windows, an input that decodes to its end
decodes to the same. -/
theorem trace_against (h : (s.trace i).halt = none)
    (hprovides : Provides s.dictionary other (Window.parseAll i)) :
    (s.against other).trace i
      = { s.trace i with session := (s.trace i).session.against other } := by
  refine trace_map_of_halt_none (f := fun s => s.against other)
    (P := fun s i => Provides s.dictionary other (Window.parseAll i)) ?_ hprovides h
  intro s i d t hprovides hd
  obtain ⟨w, hparse, -, hdictionary, hall⟩ := parseAll_of_decodeWindow hd
  rw [hall] at hprovides
  have hfirst : Provides s.dictionary other [w] := fun v hv =>
    hprovides v (List.mem_cons.2 (.inl (List.mem_singleton.1 hv)))
  have hrest : Provides s.dictionary other (Window.parseAll (i.drop d.size)) := fun v hv =>
    hprovides v (List.mem_cons_of_mem _ hv)
  exact ⟨decodeWindow_against hd hparse hfirst, hdictionary ▸ hrest⟩

/-- The dictionary against which an input decodes to its end reaches far enough for it. -/
theorem reaches_of_trace (h : (s.trace i).halt = none) :
    Reaches s.dictionary (Window.parseAll i) := by
  fun_induction trace s i with
  | case1 s i hempty =>
    rw [Window.parseAll_of_empty (List.isEmpty_iff.1 hempty)]
    exact fun w hw => absurd hw List.not_mem_nil
  | case2 s i hne d t hd ih =>
    obtain ⟨w, -, hfirst, hdictionary, hall⟩ := parseAll_of_decodeWindow hd
    have hrest := ih h
    rw [hdictionary] at hrest
    rw [hall]
    intro v hv
    rcases List.mem_cons.1 hv with rfl | hv
    · exact hfirst v (List.mem_singleton_self v)
    · exact hrest v hv
  | case3 s i hne halt t hd => cases h

/-! ### A whole delta -/

lemma readHeader_against (s : Session) (other : Array UInt8) (i : Input) :
    (s.against other).readHeader i = ((s.readHeader i).1, (s.readHeader i).2.against other) :=
  readHeader_map (f := fun s => s.against other) (fun _ => rfl) (fun _ _ _ => rfl) rfl i

variable {delta : Bytes}

/-- The windows that a session decodes are those that the delta declares. -/
lemma traceDelta_of_declared (h : (s.traceDelta delta).halt = none) :
    ∃ header t, s.readHeader (.ofBytes 0 delta) = (.ok header, t) ∧ t.dictionary = s.dictionary ∧
      declaredWindows delta = Window.parseAll ((Input.ofBytes 0 delta).drop header.size) ∧
      s.traceDelta delta = t.trace ((Input.ofBytes 0 delta).drop header.size) := by
  rcases hread : s.readHeader (.ofBytes 0 delta) with ⟨halt | header, t⟩
  · rw [traceDelta_of_error hread] at h
    cases h
  · obtain ⟨-, hparse, table, -, rfl⟩ := exists_of_readHeader_ok hread
    exact ⟨header, _, rfl, rfl, by simp only [declaredWindows, hparse], traceDelta_of_ok hread⟩

theorem traceDelta_against (h : (s.traceDelta delta).halt = none)
    (hprovides : Provides s.dictionary other (declaredWindows delta)) :
    (s.against other).traceDelta delta
      = { s.traceDelta delta with session := (s.traceDelta delta).session.against other } := by
  obtain ⟨header, t, hread, hdictionary, hall, htrace⟩ := traceDelta_of_declared h
  have hagainst := readHeader_against s other (.ofBytes 0 delta)
  rw [hread] at hagainst
  rw [htrace] at h ⊢
  rw [← hdictionary, hall] at hprovides
  rw [traceDelta_of_ok hagainst, trace_against h hprovides]

theorem reaches_of_traceDelta (h : (s.traceDelta delta).halt = none) :
    Reaches s.dictionary (declaredWindows delta) := by
  obtain ⟨header, t, hread, hdictionary, hall, htrace⟩ := traceDelta_of_declared h
  rw [htrace] at h
  rw [← hdictionary, hall]
  exact reaches_of_trace h

end Session

section Decode

variable {dictionary other output : Array UInt8} {limits : Limits} {delta : Bytes}

lemma decode_of_provides (h : decode dictionary limits delta = .ok output)
    (hprovides : Provides dictionary other (declaredWindows delta)) :
    decode other limits delta = .ok output := by
  obtain ⟨hhalt, houtput⟩ := Session.decode_eq_ok_iff.1 h
  have hagainst := Session.traceDelta_against hhalt hprovides
  have hstart : (Session.start dictionary limits).against other = .start other limits := rfl
  rw [hstart] at hagainst
  refine Session.decode_eq_ok_iff.2 ⟨?_, ?_⟩
  · rw [hagainst, hhalt]
  · rw [hagainst]
    exact houtput

/-- **The dictionary.** A delta that decodes against some dictionary decodes to the same against any
other that has the same bytes where the windows declare their segments, and so against the same one
with more bytes behind it. -/
theorem decode_of_segments (h : decode dictionary limits delta = .ok output) :
    (∀ other, (∀ w ∈ declaredWindows delta, ∀ segment, w.segment = some segment →
        segment.origin = .dictionary → segment.stop ≤ other.size ∧
          other.extract segment.offset segment.stop
            = dictionary.extract segment.offset segment.stop) →
        decode other limits delta = .ok output) ∧
      ∀ more, decode (dictionary ++ more) limits delta = .ok output := by
  have hreaches := Session.reaches_of_traceDelta (Session.decode_eq_ok_iff.1 h).1
  exact ⟨fun _ hprovides => decode_of_provides h hprovides,
    fun more => decode_of_provides h (hreaches.provides more)⟩

/-- The second window has a segment of the two bytes after the first one of the dictionary, and
copies four bytes from it on. -/
theorem decode_of_segments_overrun :
    let delta := twoWindows.take 19 ++ [5, 2, 1, 11, 4, 0, 0, 1, 1, 0, 28, 0, 11, 20, 0]
    (declaredWindows delta).map Window.segment = [none, some ⟨.dictionary, 1, 2⟩] ∧
      decode #[1, 2, 3, 4, 5] (.default ample) delta = .ok #[97, 98, 99, 2, 3, 2, 3] ∧
      decode #[9, 2, 3] (.default ample) delta = .ok #[97, 98, 99, 2, 3, 2, 3] ∧
      decode #[1, 2, 3, 4, 5, 6] (.default ample) delta = .ok #[97, 98, 99, 2, 3, 2, 3] := by
  intro delta
  have hsegments : (declaredWindows delta).map Window.segment
      = [none, some ⟨.dictionary, 1, 2⟩] := by
    decide +kernel
  have hok : decode #[1, 2, 3, 4, 5] (.default ample) delta = .ok #[97, 98, 99, 2, 3, 2, 3] := by
    decide +kernel
  obtain ⟨hother, hmore⟩ := decode_of_segments hok
  refine ⟨hsegments, hok, hother #[9, 2, 3] fun w hw segment hsegment _ => ?_, hmore #[6]⟩
  have hmem : some segment ∈ [none, some ⟨.dictionary, 1, 2⟩] := by
    rw [← hsegments, ← hsegment]
    exact List.mem_map_of_mem hw
  obtain rfl : segment = ⟨.dictionary, 1, 2⟩ := by simpa using hmem
  exact ⟨by decide, by decide⟩

end Decode

end Vcdiff
