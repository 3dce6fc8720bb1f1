import Vcdiff.Proofs.DeltaTrace

/-!
Deltas that arrive in chunks. However a delta is cut, a stream gives the targets of those windows
that are wholly there, and at the end it has done what decoding the delta at once does. Only the
limit on encoded windows may stop it earlier, at a window that does not decode anyhow.
-/

namespace Vcdiff

/-! ### Traces and what a stream makes of them -/

namespace Trace

variable {t : Trace}

lemma emitted_prepend (windows : List Placed) (t : Trace) :
    (t.prepend windows).emitted
      = ((windows.map Placed.output).filter (!·.isEmpty)) ++ t.emitted := by
  simp [emitted, prepend]

lemma emitted_shift (k : Nat) (t : Trace) : (t.shift k).emitted = t.emitted := by
  simp [emitted, shift, Function.comp_def]

lemma shift_zero (t : Trace) : t.shift 0 = t := by
  have hfault (fault : Fault) : fault.shift 0 = fault := by cases fault <;> rfl
  have hhalt (halt : Halt) : halt.shift 0 = halt := by
    rcases halt with missing | fault
    · rfl
    · exact congrArg Halt.invalid (hfault fault)
  obtain ⟨windows, session, rest, halt⟩ := t
  simp [shift, Input.shift, hhalt]

lemma Open.shift (h : t.Open) (k : Nat) : (t.shift k).Open := by
  intro fault hfault
  obtain ⟨halt, hhalt, heq⟩ := Option.map_eq_some_iff.1 hfault
  rcases halt with missing | found
  · cases heq
  · exact h found hhalt

lemma stream_eq_ok_iff {stream : Stream} :
    t.stream = .ok stream ↔ t.Open ∧ stream = ⟨t.session, t.rest.rest⟩ := by
  unfold Trace.stream Open
  rcases t.halt with _ | (missing | fault) <;> simp [eq_comm]

lemma stream_eq_error_iff {fault : Fault} :
    t.stream = .error fault ↔ t.halt = some (.invalid fault) := by
  unfold Trace.stream
  rcases t.halt with _ | (missing | found) <;> simp

lemma shift_eq_encodedWindowTooLarge {fault : Fault} {k : Nat} {size limit : Int}
    (h : fault.shift k = .encodedWindowTooLarge size limit) :
    fault = .encodedWindowTooLarge size limit := by
  cases fault <;> simp_all [Fault.shift]

end Trace

namespace Stream

variable {stream next : Stream} {s : Session} {front chunk : Bytes} {chunks : List Bytes}

/-- The stream has taken in the bytes `front` of a delta, which the session `s` decodes. -/
structure Follows (s : Session) (front : Bytes) (stream : Stream) : Prop where
  fresh : ¬ s.header.isSome
  session : stream.session = (s.traceDelta front).session
  pending : stream.pending = (s.traceDelta front).rest.rest
  isOpen : (s.traceDelta front).Open

lemma follows_start (dictionary : Array UInt8) (limits : Limits) :
    Follows (.start dictionary limits) [] (start dictionary limits) := by
  have hread : (Session.start dictionary limits).readHeader (.ofBytes 0 [])
      = (.error (.incomplete 5), .start dictionary limits) := rfl
  have htrace := Session.traceDelta_of_error hread
  refine ⟨Bool.false_ne_true, ?_, ?_, ?_⟩
  · rw [htrace]
    rfl
  · rw [htrace]
    rfl
  · rw [htrace]
    intro fault h
    cases h

/-- What a write gives, read off a trace that goes on where the trace of the bytes before
stopped. -/
theorem write_eq (h : Follows s front stream) (chunk : Bytes) :
    ∃ (t : Trace) (k : Nat), stream.write chunk = ⟨t.emitted, t.stream⟩ ∧
      s.traceDelta (front ++ chunk) = (t.shift k).prepend (s.traceDelta front).windows := by
  by_cases hheader : (s.traceDelta front).session.header.isSome
  case pos =>
    refine ⟨stream.session.trace (.ofBytes 0 (stream.pending ++ chunk)),
      (s.traceDelta front).rest.position, ?_, ?_⟩
    · rw [write, h.session, if_pos hheader, Session.drain_eq]
    · have hinput : (s.traceDelta front).rest.extend chunk
          = (Input.ofBytes 0 (stream.pending ++ chunk)).shift
              (s.traceDelta front).rest.position := by
        rw [h.pending]
        simp only [Input.extend, Input.ofBytes, Input.shift, Nat.zero_add,
          Session.gap_rest_traceDelta]
      rw [Session.traceDelta_append hheader h.fresh h.isOpen, hinput, Session.trace_shift,
        h.session]
  case neg =>
    obtain ⟨halt, hread, htrace⟩ := Session.traceDelta_of_not_isSome hheader
    have hsession : stream.session = s := by rw [h.session, htrace]
    have hpending : stream.pending = front := by
      rw [h.pending, htrace]
      rfl
    refine ⟨s.traceDelta (front ++ chunk), 0, ?_, ?_⟩
    · rw [write, hsession, hpending, if_neg h.fresh]
      rcases hmore : s.readHeader (.ofBytes 0 (front ++ chunk)) with
        ⟨(missing | fault) | header, t⟩
      · rw [Session.traceDelta_of_error hmore]
        cases Session.session_of_readHeader_error hmore
        rfl
      · rw [Session.traceDelta_of_error hmore]
        rfl
      · rw [Session.traceDelta_of_ok hmore]
        exact Session.drain_eq t _
    · rw [Trace.shift_zero, htrace, Trace.prepend_nil]

/-- A write gives the targets of the windows that it completes. -/
theorem emitted_write (h : Follows s front stream) (chunk : Bytes) :
    (s.traceDelta (front ++ chunk)).emitted
      = (s.traceDelta front).emitted ++ (stream.write chunk).emitted := by
  obtain ⟨t, k, hwrite, htrace⟩ := write_eq h chunk
  rw [htrace, hwrite, Trace.emitted_prepend, Trace.emitted_shift]
  rfl

/-- A write that does not fail leaves a stream that has taken in the chunk. -/
theorem follows_write (h : Follows s front stream)
    (hnext : (stream.write chunk).result = .ok next) : Follows s (front ++ chunk) next := by
  obtain ⟨t, k, hwrite, htrace⟩ := write_eq h chunk
  rw [hwrite] at hnext
  obtain ⟨hopen, rfl⟩ := Trace.stream_eq_ok_iff.1 hnext
  refine ⟨h.fresh, ?_, ?_, ?_⟩
  · rw [htrace]
    rfl
  · rw [htrace]
    rfl
  · rw [htrace]
    exact hopen.shift k

/-- A write that fails has met the fault that the trace ends in. -/
theorem halt_of_write_error (h : Follows s front stream) {fault : Fault}
    (hfault : (stream.write chunk).result = .error fault) :
    ∃ k, (s.traceDelta (front ++ chunk)).halt = some (.invalid (fault.shift k)) := by
  obtain ⟨t, k, hwrite, htrace⟩ := write_eq h chunk
  rw [hwrite] at hfault
  refine ⟨k, ?_⟩
  rw [htrace]
  simp only [Trace.prepend, Trace.shift, Trace.stream_eq_error_iff.1 hfault]
  rfl

/-! ### All chunks -/

/-- The fault of a stream and the fault that decoding at once ends in: of one kind, unless the
stream has refused a window for its size before all of it was there. -/
def Agree (limits : Limits) (streamed found : Fault) : Prop :=
  streamed.kind = found.kind ∨
    ∃ size, streamed = .encodedWindowTooLarge size limits.encodedWindow

lemma writeAll_cons (stream : Stream) (chunk : Bytes) (chunks : List Bytes) :
    stream.writeAll (chunk :: chunks) = match (stream.write chunk).result with
      | .error fault => ([(stream.write chunk).emitted], .error fault)
      | .ok next =>
        ((stream.write chunk).emitted :: (next.writeAll chunks).1, (next.writeAll chunks).2) := rfl

/-- However the bytes are cut, what a stream gives is what their trace gives. -/
theorem emitted_writeAll (h : Follows s front stream) (chunks : List Bytes) :
    (s.traceDelta (front ++ chunks.flatten)).emitted
      = (s.traceDelta front).emitted ++ (stream.writeAll chunks).1.flatten := by
  induction chunks generalizing front stream with
  | nil => simp [writeAll]
  | cons chunk chunks ih =>
    have hwrite := emitted_write h chunk
    rw [writeAll_cons, List.flatten_cons, ← List.append_assoc]
    rcases hresult : (stream.write chunk).result with fault | next
    · obtain ⟨k, hhalt⟩ := halt_of_write_error h hresult
      have hwindows := (Session.traceDelta_append_of_fault hhalt chunks.flatten).1
      rw [Trace.emitted, hwindows, ← Trace.emitted, hwrite]
      simp
    · rw [ih (follows_write h hresult), hwrite, List.append_assoc]
      rfl

theorem follows_writeAll (h : Follows s front stream)
    (hnext : (stream.writeAll chunks).2 = .ok next) :
    Follows s (front ++ chunks.flatten) next := by
  induction chunks generalizing front stream with
  | nil =>
    cases hnext
    rwa [List.flatten_nil, List.append_nil]
  | cons chunk chunks ih =>
    rw [writeAll_cons] at hnext
    rcases hresult : (stream.write chunk).result with fault | next'
    · rw [hresult] at hnext
      cases hnext
    · rw [hresult] at hnext
      rw [List.flatten_cons, ← List.append_assoc]
      exact ih (follows_write h hresult) hnext

/-- A write that fails dooms the delta, whatever chunks were still to come. -/
theorem halt_of_writeAll_error (h : Follows s front stream) {fault : Fault}
    (hfault : (stream.writeAll chunks).2 = .error fault) :
    ∃ found, (s.traceDelta (front ++ chunks.flatten)).halt = some (.invalid found) ∧
      Agree s.limits fault found := by
  induction chunks generalizing front stream with
  | nil => cases hfault
  | cons chunk chunks ih =>
    rw [writeAll_cons] at hfault
    rw [List.flatten_cons, ← List.append_assoc]
    rcases hresult : (stream.write chunk).result with fault' | next'
    · rw [hresult] at hfault
      cases hfault
      obtain ⟨k, hhalt⟩ := halt_of_write_error h hresult
      obtain ⟨-, found, hfound, hsame⟩ := Session.traceDelta_append_of_fault hhalt chunks.flatten
      refine ⟨found, hfound, ?_⟩
      rcases hsame with rfl | ⟨size, hsize⟩
      · exact .inl (Fault.kind_shift k _).symm
      · exact .inr ⟨size, Trace.shift_eq_encodedWindowTooLarge hsize⟩
    · rw [hresult] at hfault
      exact ih (follows_write h hresult) hfault

/-! ### The end of the input -/

def feed (stream : Stream) (chunks : List Bytes) : List (Array UInt8) × Except Fault Unit :=
  ((stream.writeAll chunks).1.flatten, (stream.writeAll chunks).2.bind finish)

/-- A stream that has taken in a delta ends as decoding the delta at once does. -/
lemma finish_eq (h : Follows s front stream) :
    match (s.traceDelta front).halt with
    | none => stream.finish = .ok ()
    | some _ => ∃ fault, stream.finish = .error fault ∧ fault.kind = .truncatedInput := by
  rcases hread : s.readHeader (.ofBytes 0 front) with ⟨halt | header, t⟩
  · have hnone : stream.session.header.isNone := by
      rw [h.session, Session.traceDelta_of_error hread]
      simpa using h.fresh
    rw [Session.traceDelta_of_error hread, finish, if_pos hnone]
    exact ⟨_, rfl, rfl⟩
  · have hsome : ¬ stream.session.header.isNone := by
      rw [h.session, Session.header_of_traceDelta hread]
      exact Bool.false_ne_true
    have hpending := Session.halt_eq_none_iff h.isOpen hread
    rw [← h.pending] at hpending
    rw [finish, if_neg hsome]
    rcases hhalt : (s.traceDelta front).halt with _ | halt
    · dsimp only
      rw [hpending.1 hhalt]
      rfl
    · have hne : ¬ stream.pending.isEmpty := by
        rw [List.isEmpty_iff, ← hpending, hhalt]
        exact Option.some_ne_none halt
      dsimp only
      rw [if_neg hne]
      exact ⟨_, rfl, rfl⟩

lemma joined_filter (outputs : List (Array UInt8)) :
    joined (outputs.filter (!·.isEmpty)) = joined outputs := by
  induction outputs with
  | nil => rfl
  | cons output outputs ih =>
    by_cases hempty : output.isEmpty
    · have : output = #[] := Array.isEmpty_iff.1 hempty
      simp [this, ih]
    · simp [hempty, ih]

lemma emitted_traceDelta_nil (dictionary : Array UInt8) (limits : Limits) :
    ((Session.start dictionary limits).traceDelta []).emitted = [] := rfl

/-- What a stream gives in all is what the trace of its bytes gives. -/
lemma emitted_feed (dictionary : Array UInt8) (limits : Limits) (chunks : List Bytes) :
    ((start dictionary limits).feed chunks).1
      = ((Session.start dictionary limits).traceDelta chunks.flatten).emitted := by
  have hemitted := emitted_writeAll (follows_start dictionary limits) chunks
  rw [emitted_traceDelta_nil, List.nil_append, List.nil_append] at hemitted
  exact hemitted.symm

/-- A stream ends as decoding its bytes at once ends. -/
lemma feed_agrees (dictionary : Array UInt8) (limits : Limits) (chunks : List Bytes) :
    match decode dictionary limits chunks.flatten, ((start dictionary limits).feed chunks).2 with
      | .ok output, .ok () => joined ((start dictionary limits).feed chunks).1 = output
      | .error found, .error fault => Agree limits fault found
      | _, _ => False := by
  have hstart := follows_start dictionary limits
  rw [emitted_feed, feed]
  dsimp only
  rcases hresult : ((start dictionary limits).writeAll chunks).2 with fault | last
  · obtain ⟨found, hfound, hagree⟩ := halt_of_writeAll_error hstart hresult
    rw [List.nil_append] at hfound
    rw [decode, Session.decode_of_halt_invalid hfound]
    exact hagree
  · have hfollows := follows_writeAll hstart hresult
    rw [List.nil_append] at hfollows
    have hfinish := finish_eq hfollows
    rcases hhalt : ((Session.start dictionary limits).traceDelta chunks.flatten).halt with
      _ | (missing | fault)
    · rw [hhalt] at hfinish
      rw [decode, Session.decode_of_halt_none hhalt, Session.output_traceDelta]
      rw [Except.bind, hfinish, Trace.emitted, joined_filter]
      exact Array.empty_append.symm
    · rw [hhalt] at hfinish
      obtain ⟨fault, hfault, hkind⟩ := hfinish
      obtain ⟨found, hfound, hkind'⟩ := Session.decode_of_halt_incomplete hhalt
      rw [decode, hfound, Except.bind, hfault]
      exact .inl (hkind.trans hkind'.symm)
    · exact absurd hhalt (hfollows.isOpen fault)

/-- Writes that have not failed have given the windows that end in the bytes so far. -/
lemma emitted_of_writeAll_ok {dictionary : Array UInt8} {limits : Limits}
    (h : ((start dictionary limits).writeAll chunks).2 = .ok next) (more : Bytes) :
    ((start dictionary limits).writeAll chunks).1.flatten
      = (((windowsOf dictionary limits (chunks.flatten ++ more)).filter
          (·.stop ≤ chunks.flatten.length)).map Placed.output).filter (!·.isEmpty) := by
  have hfollows := follows_writeAll (follows_start dictionary limits) h
  rw [List.nil_append] at hfollows
  have hfront : ((start dictionary limits).writeAll chunks).1.flatten
      = ((Session.start dictionary limits).traceDelta chunks.flatten).emitted :=
    emitted_feed dictionary limits chunks
  rw [hfront, Trace.emitted, windowsOf,
    ← Session.windows_traceDelta_append hfollows.fresh hfollows.isOpen]

/-- **Chunking.** A stream gives the targets that are not empty of the windows of the delta, each
as soon as all of the window is there; and it ends as decoding the delta at once ends: with the
same output, or with a fault of the same kind, unless the limit on encoded windows has stopped it
at a window before all of it was there. -/
theorem feed_eq_decode (dictionary : Array UInt8) (limits : Limits) (chunks : List Bytes) :
    ((start dictionary limits).feed chunks).1
        = ((windowsOf dictionary limits chunks.flatten).map Placed.output).filter (!·.isEmpty) ∧
      (match decode dictionary limits chunks.flatten, ((start dictionary limits).feed chunks).2 with
        | .ok output, .ok () => joined ((start dictionary limits).feed chunks).1 = output
        | .error found, .error fault => Agree limits fault found
        | _, _ => False) ∧
      ∀ k next, ((start dictionary limits).writeAll (chunks.take k)).2 = .ok next →
        ((start dictionary limits).writeAll (chunks.take k)).1.flatten
          = (((windowsOf dictionary limits chunks.flatten).filter
              (·.stop ≤ (chunks.take k).flatten.length)).map Placed.output).filter
            (!·.isEmpty) := by
  refine ⟨emitted_feed dictionary limits chunks, feed_agrees dictionary limits chunks,
    fun k next hnext => ?_⟩
  have hsplit : chunks.flatten = (chunks.take k).flatten ++ (chunks.drop k).flatten := by
    rw [← List.flatten_append, List.take_append_drop]
  rw [hsplit]
  exact emitted_of_writeAll_ok hnext (chunks.drop k).flatten

theorem feed_eq_decode_twoWindows :
    let chunks := [twoWindows.take 5, [], (twoWindows.drop 5).take 20, twoWindows.drop 25]
    ∃ next, ((start #[1, 2, 3, 4, 5] (.default ample)).writeAll (chunks.take 3)).2 = .ok next ∧
      ((start #[1, 2, 3, 4, 5] (.default ample)).writeAll (chunks.take 3)).1.flatten
        = [#[97, 98, 99]] := by
  intro chunks
  rcases hresult : ((start #[1, 2, 3, 4, 5] (.default ample)).writeAll (chunks.take 3)).2 with
    fault | next
  · have hisOk : ((start #[1, 2, 3, 4, 5] (.default ample)).writeAll (chunks.take 3)).2.isOk := by
      decide +kernel
    rw [hresult] at hisOk
    cases hisOk
  · refine ⟨next, rfl, ?_⟩
    rw [(feed_eq_decode #[1, 2, 3, 4, 5] (.default ample) chunks).2.2 3 next hresult]
    decide +kernel

end Stream

end Vcdiff
