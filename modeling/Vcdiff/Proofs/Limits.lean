import Vcdiff.Proofs.DeltaTrace
import Vcdiff.Proofs.RoundTrip

/-!
Limits refuse windows and do nothing else. A delta that decodes keeps all its windows within the
limits of the session, and decodes to the same under any other limits that its windows keep within.
The platform has to be the same, since it also has to have memory for the table of the file.
-/

namespace Vcdiff

namespace Limits

variable {l m : Limits} {encoded written target : Nat}

lemma allow_of_check (hencoded : l.checkEncoded encoded = .ok ())
    (htarget : l.checkTarget written target = .ok ()) : l.Allow encoded written target := by
  unfold checkEncoded at hencoded
  split at hencoded
  · cases hencoded
  · unfold checkTarget at htarget
    split at htarget
    · cases htarget
    · split at htarget
      · cases htarget
      · split at htarget
        · cases htarget
        · rename_i hmemory
          exact ⟨by omega, by omega, by omega, fun hpos => by_contra fun hno => hmemory ⟨hpos, hno⟩⟩

/-- What is not allowed is refused, for its size as bytes or for its target. -/
lemma exists_fault_of_not_allow (h : ¬ l.Allow encoded written target) :
    (∃ fault, l.checkEncoded encoded = .error fault ∧ fault.kind = .limitExceeded) ∨
      l.checkEncoded encoded = .ok () ∧
        ∃ fault, l.checkTarget written target = .error fault ∧ fault.kind = .limitExceeded := by
  rcases hencoded : l.checkEncoded encoded with fault | ⟨⟩
  · left
    unfold checkEncoded at hencoded
    split at hencoded <;> cases hencoded
    exact ⟨_, rfl, rfl⟩
  · right
    rcases htarget : l.checkTarget written target with fault | ⟨⟩
    · refine ⟨rfl, fault, rfl, ?_⟩
      unfold checkTarget at htarget
      split at htarget
      · cases htarget
        rfl
      · split at htarget
        · cases htarget
          rfl
        · split at htarget <;> cases htarget
          rfl
    · exact absurd (allow_of_check hencoded htarget) h

lemma Allow.mono (h : l.Allow encoded written target) (hencoded : l.encodedWindow ≤ m.encodedWindow)
    (htarget : l.targetWindow ≤ m.targetWindow) (houtput : l.output ≤ m.output)
    (hplatform : m.canAllocate = l.canAllocate) : m.Allow encoded written target :=
  ⟨Int.le_trans h.encoded_le hencoded, Int.le_trans h.target_le htarget,
    Int.le_trans h.output_le houtput, by rw [hplatform]; exact h.allocates⟩

/-- The windows, which begin at `start` after `written` bytes of output, are all within the
limits. -/
def AllowAll (l : Limits) (start written : Nat) : List Placed → Prop
  | [] => True
  | w :: ws => l.Allow (w.stop - start) written w.output.size ∧
      AllowAll l w.stop (written + w.output.size) ws

end Limits

def encodedSizes (start : Nat) : List Placed → List Nat
  | [] => []
  | w :: ws => (w.stop - start) :: encodedSizes w.stop ws

namespace Limits

variable {l m : Limits} {start written : Nat} {windows : List Placed}

lemma AllowAll.mono (h : l.AllowAll start written windows)
    (hencoded : l.encodedWindow ≤ m.encodedWindow) (htarget : l.targetWindow ≤ m.targetWindow)
    (houtput : l.output ≤ m.output) (hplatform : m.canAllocate = l.canAllocate) :
    m.AllowAll start written windows := by
  induction windows generalizing start written with
  | nil => trivial
  | cons w ws ih => exact ⟨h.1.mono hencoded htarget houtput hplatform, ih h.2⟩

lemma AllowAll.encodedSizes_le (h : l.AllowAll start written windows) :
    ∀ n ∈ encodedSizes start windows, (n : Int) ≤ l.encodedWindow := by
  induction windows generalizing start written with
  | nil => simp [encodedSizes]
  | cons w ws ih =>
    intro n hn
    rcases List.mem_cons.1 hn with rfl | hn
    · exact h.1.encoded_le
    · exact ih h.2 n hn

lemma AllowAll.allocates (h : l.AllowAll start written windows) :
    ∀ w ∈ windows, 0 < w.output.size → l.canAllocate w.output.size = true := by
  induction windows generalizing start written with
  | nil => simp
  | cons w ws ih => exact List.forall_mem_cons.2 ⟨h.1.allocates, ih h.2⟩

/-- If all targets together are within the limits for one target, then each of them is, as long as
there is memory for it. -/
lemma allowAll_of_total {total : Nat} (hencoded : ∀ n ∈ encodedSizes start windows,
      (n : Int) ≤ l.encodedWindow)
    (htotal : written + (joined (windows.map Placed.output)).size ≤ total)
    (htarget : (total : Int) ≤ l.targetWindow) (houtput : (total : Int) ≤ l.output)
    (hallocates : ∀ w ∈ windows, 0 < w.output.size → l.canAllocate w.output.size = true) :
    l.AllowAll start written windows := by
  induction windows generalizing start written with
  | nil => trivial
  | cons w ws ih =>
    rw [List.map_cons, joined_cons, Array.size_append] at htotal
    obtain ⟨hfirst, hrest⟩ := List.forall_mem_cons.1 hallocates
    refine ⟨⟨hencoded _ List.mem_cons_self, by omega, by omega, hfirst⟩, ih ?_ (by omega) hrest⟩
    exact fun n hn => hencoded n (List.mem_cons_of_mem _ hn)

end Limits

namespace Session

variable {s t : Session} {i : Input} {d : DecodedWindow} {w : Window} {source : Array UInt8}
  {l : Limits}

def under (s : Session) (l : Limits) : Session := { s with limits := l }

/-! ### One window -/

lemma sourceOf_eq_ok_iff :
    s.sourceOf w = .ok source ↔
      s.limits.Allow w.size s.output.size w.targetLength ∧
        s.segmentBytes w.segment = .ok source := by
  constructor
  · intro h
    rcases hencoded : s.limits.checkEncoded w.size with fault | ⟨⟩
    · rw [sourceOf, hencoded] at h
      cases h
    · rcases htarget : s.limits.checkTarget s.output.size w.targetLength with fault | ⟨⟩
      · rw [sourceOf, hencoded, htarget] at h
        cases h
      · rw [sourceOf, hencoded, htarget] at h
        exact ⟨Limits.allow_of_check hencoded htarget, h⟩
  · rintro ⟨hallow, hsegment⟩
    rw [sourceOf, hallow.checkEncoded, hallow.checkTarget, hsegment]
    rfl

lemma sourceOf_of_allow (h : s.limits.Allow w.size s.output.size w.targetLength) :
    s.sourceOf w = s.segmentBytes w.segment := by
  rw [sourceOf, h.checkEncoded, h.checkTarget]
  rfl

lemma sourceOf_of_not_allow (h : ¬ s.limits.Allow w.size s.output.size w.targetLength) :
    ∃ fault, s.sourceOf w = .error fault ∧ fault.kind = .limitExceeded := by
  rcases Limits.exists_fault_of_not_allow h with
    ⟨fault, hencoded, hkind⟩ | ⟨hencoded, fault, htarget, hkind⟩
  · refine ⟨fault, ?_, hkind⟩
    rw [sourceOf, hencoded]
    rfl
  · refine ⟨fault, ?_, hkind⟩
    rw [sourceOf, hencoded, htarget]
    rfl

lemma allow_of_decodeWindow (h : s.decodeWindow i = (.ok d, t)) :
    s.limits.Allow d.size s.output.size d.output.size := by
  obtain ⟨-, w, source, progress, hopen, hrun, hsize, -⟩ := replay_of_decodeWindow h
  have hlength : d.output.size = w.targetLength := Replay.size_of_run hrun
  rw [hsize, hlength]
  exact (sourceOf_eq_ok_iff.1 (openWindow_eq_ok_iff.1 hopen).2).1

/-- A window that has been decoded is decoded under any limits that allow it. -/
lemma decodeWindow_under (h : s.decodeWindow i = (.ok d, t))
    (hallow : l.Allow d.size s.output.size d.output.size) :
    (s.under l).decodeWindow i = (.ok d, t.under l) := by
  obtain ⟨hheader, w, source, progress, hopen, hrun, hsize, rfl⟩ := replay_of_decodeWindow h
  have hlength : d.output.size = w.targetLength := Replay.size_of_run hrun
  obtain ⟨hparse, hsource⟩ := openWindow_eq_ok_iff.1 hopen
  have hsegment := (sourceOf_eq_ok_iff.1 hsource).2
  rw [hsize, hlength] at hallow
  have hopen' : (s.under l).openWindow i = .ok (w, source) :=
    openWindow_eq_ok_iff.2 ⟨hparse, sourceOf_eq_ok_iff.2 ⟨hallow, hsegment⟩⟩
  have hrun' : Replay.run ((s.under l).taskOf w source) ((s.under l).progressOf w)
      = (.ok d.output, progress) := hrun
  have hheader' : (s.under l).header.isSome := hheader
  rw [decodeWindow_of_ok hheader' hopen', hrun', ← hsize]
  rfl

lemma decodeWindow_under_of_not_allow (h : s.decodeWindow i = (.ok d, t))
    (hallow : ¬ l.Allow d.size s.output.size d.output.size) :
    ∃ fault, (s.under l).decodeWindow i = (.error (.invalid fault), s.under l) ∧
      fault.kind = .limitExceeded := by
  obtain ⟨hheader, w, source, progress, hopen, hrun, hsize, rfl⟩ := replay_of_decodeWindow h
  have hlength : d.output.size = w.targetLength := Replay.size_of_run hrun
  have hparse := (openWindow_eq_ok_iff.1 hopen).1
  rw [hsize, hlength] at hallow
  obtain ⟨fault, hsource, hkind⟩ := sourceOf_of_not_allow (s := s.under l) hallow
  have hopen' : (s.under l).openWindow i = .error (.invalid fault) := by
    simp only [openWindow, hparse, hsource]
  exact ⟨fault, decodeWindow_of_error (s := s.under l) hheader hopen', hkind⟩

/-! ### All windows -/

/-- A delta that decodes to its end keeps within the limits. -/
theorem allowAll_of_trace (h : (s.trace i).halt = none) :
    s.limits.AllowAll i.position s.output.size (s.trace i).windows := by
  fun_induction trace s i with
  | case1 s i hempty => trivial
  | case2 s i hne d t hd ih =>
    have hallow := allow_of_decodeWindow hd
    obtain ⟨-, w, source, progress, -, -, -, rfl⟩ := replay_of_decodeWindow hd
    have hrest := ih h
    rw [Array.size_append] at hrest
    refine ⟨?_, hrest⟩
    rw [Nat.add_sub_cancel_left]
    exact hallow
  | case3 s i hne halt t hd => cases h

/-- Under limits that its windows keep within, a delta that decodes to its end decodes to the
same. -/
theorem trace_under (h : (s.trace i).halt = none)
    (hallow : l.AllowAll i.position s.output.size (s.trace i).windows) :
    (s.under l).trace i
      = { s.trace i with session := (s.trace i).session.under l } := by
  refine trace_map_of_halt_none (f := fun s => s.under l)
    (P := fun s i => l.AllowAll i.position s.output.size (s.trace i).windows) ?_ hallow h
  intro s i d t hallow hd
  rw [trace_of_window hd] at hallow
  obtain ⟨hfirst, hrest⟩ := hallow
  rw [Nat.add_sub_cancel_left] at hfirst
  refine ⟨decodeWindow_under hd hfirst, ?_⟩
  have houtput : t.output.size = s.output.size + d.output.size := by
    obtain ⟨-, w, source, progress, -, -, -, rfl⟩ := replay_of_decodeWindow hd
    exact Array.size_append
  rw [houtput]
  exact hrest

/-- Under limits that some window does not keep within, it is refused for that. -/
theorem trace_under_of_not_allowAll (h : (s.trace i).halt = none)
    (hallow : ¬ l.AllowAll i.position s.output.size (s.trace i).windows) :
    ∃ fault, ((s.under l).trace i).halt = some (.invalid fault) ∧ fault.kind = .limitExceeded := by
  fun_induction trace s i with
  | case1 s i hempty => exact absurd trivial hallow
  | case2 s i hne d t hd ih =>
    have hhead : (Placed.mk (i.position + d.size) d.output).stop - i.position = d.size :=
      Nat.add_sub_cancel_left _ _
    by_cases hfirst : l.Allow d.size s.output.size d.output.size
    case neg =>
      obtain ⟨fault, hwindow, hkind⟩ := decodeWindow_under_of_not_allow hd hfirst
      rw [trace_of_halt (by simpa using hne) hwindow]
      exact ⟨fault, rfl, hkind⟩
    case pos =>
      have houtput : t.output.size = s.output.size + d.output.size := by
        obtain ⟨-, w, source, progress, -, -, -, rfl⟩ := replay_of_decodeWindow hd
        exact Array.size_append
      have hrest : ¬ l.AllowAll (i.drop d.size).position t.output.size
          (t.trace (i.drop d.size)).windows := by
        intro hrest
        rw [houtput] at hrest
        exact hallow ⟨by rwa [hhead], hrest⟩
      obtain ⟨fault, htrace, hkind⟩ := ih h hrest
      rw [trace_of_window (decodeWindow_under hd hfirst)]
      exact ⟨fault, htrace, hkind⟩
  | case3 s i hne halt t hd => cases h

/-! ### A whole delta -/

lemma readHeader_under (hplatform : l.canAllocate = s.limits.canAllocate) (i : Input) :
    (s.under l).readHeader i = ((s.readHeader i).1, (s.readHeader i).2.under l) :=
  readHeader_map (f := fun s => s.under l) (fun _ => rfl) (fun _ _ _ => rfl) hplatform i

end Session

/-- Where the windows of a delta begin. -/
def headerSize (delta : Bytes) : Nat :=
  match FileHeader.parse (.ofBytes 0 delta) with
  | .ok header => header.size
  | .error _ => 0

namespace Session

variable {s : Session} {delta : Bytes} {l : Limits}

/-- The windows of a delta are traced from where they begin. -/
lemma traceDelta_of_halt_none (h : (s.traceDelta delta).halt = none) :
    ∃ header t, s.readHeader (.ofBytes 0 delta) = (.ok header, t) ∧ t.output = s.output ∧
      ((Input.ofBytes 0 delta).drop header.size).position = headerSize delta ∧
      s.traceDelta delta = t.trace ((Input.ofBytes 0 delta).drop header.size) := by
  rcases hread : s.readHeader (.ofBytes 0 delta) with ⟨halt | header, t⟩
  · rw [traceDelta_of_error hread] at h
    cases h
  · obtain ⟨-, hparse, table, -, rfl⟩ := exists_of_readHeader_ok hread
    refine ⟨header, _, rfl, rfl, ?_, traceDelta_of_ok hread⟩
    rw [headerSize, hparse]
    exact Nat.zero_add _

theorem allowAll_of_traceDelta (h : (s.traceDelta delta).halt = none) :
    s.limits.AllowAll (headerSize delta) s.output.size (s.traceDelta delta).windows := by
  obtain ⟨header, t, hread, houtput, hposition, htrace⟩ := traceDelta_of_halt_none h
  have hlimits : t.limits = s.limits := by
    obtain ⟨-, -, table, -, rfl⟩ := exists_of_readHeader_ok hread
    rfl
  rw [htrace] at h ⊢
  rw [← houtput, ← hposition, ← hlimits]
  exact allowAll_of_trace h

theorem traceDelta_under (h : (s.traceDelta delta).halt = none)
    (hallow : l.AllowAll (headerSize delta) s.output.size (s.traceDelta delta).windows)
    (hplatform : l.canAllocate = s.limits.canAllocate) :
    (s.under l).traceDelta delta
      = { s.traceDelta delta with session := (s.traceDelta delta).session.under l } := by
  obtain ⟨header, t, hread, houtput, hposition, htrace⟩ := traceDelta_of_halt_none h
  have hunder := readHeader_under hplatform (.ofBytes 0 delta)
  rw [hread] at hunder
  rw [htrace] at h hallow ⊢
  rw [← houtput, ← hposition] at hallow
  rw [traceDelta_of_ok hunder, trace_under h hallow]

theorem traceDelta_under_of_not_allowAll (h : (s.traceDelta delta).halt = none)
    (hallow : ¬ l.AllowAll (headerSize delta) s.output.size (s.traceDelta delta).windows)
    (hplatform : l.canAllocate = s.limits.canAllocate) :
    ∃ fault, ((s.under l).traceDelta delta).halt = some (.invalid fault) ∧
      fault.kind = .limitExceeded := by
  obtain ⟨header, t, hread, houtput, hposition, htrace⟩ := traceDelta_of_halt_none h
  have hunder := readHeader_under hplatform (.ofBytes 0 delta)
  rw [hread] at hunder
  rw [htrace] at h hallow
  rw [← houtput, ← hposition] at hallow
  rw [traceDelta_of_ok hunder]
  exact trace_under_of_not_allowAll h hallow

lemma decode_eq_ok_iff {output : Array UInt8} :
    (s.decode delta).1 = .ok output ↔
      (s.traceDelta delta).halt = none ∧ (s.traceDelta delta).session.output = output := by
  constructor
  · intro h
    rcases hhalt : (s.traceDelta delta).halt with _ | (missing | fault)
    · rw [decode_of_halt_none hhalt] at h
      cases h
      exact ⟨rfl, rfl⟩
    · obtain ⟨fault, hfault, -⟩ := decode_of_halt_incomplete hhalt
      rw [hfault] at h
      cases h
    · rw [decode_of_halt_invalid hhalt] at h
      cases h
  · rintro ⟨hhalt, rfl⟩
    exact decode_of_halt_none hhalt

end Session

section Decode

variable {dictionary output : Array UInt8} {l m : Limits} {delta : Bytes}

/-- A delta that decodes keeps within the limits. -/
theorem allowAll_of_decode (h : decode dictionary l delta = .ok output) :
    l.AllowAll (headerSize delta) 0 (windowsOf dictionary l delta) :=
  Session.allowAll_of_traceDelta (Session.decode_eq_ok_iff.1 h).1

/-- **Limits.** A delta that decodes under some limits decodes to the same, window by window, under
all others that its windows keep within, on the same platform. -/
theorem decode_of_allowAll (h : decode dictionary l delta = .ok output)
    (hallow : m.AllowAll (headerSize delta) 0 (windowsOf dictionary l delta))
    (hplatform : m.canAllocate = l.canAllocate) :
    decode dictionary m delta = .ok output ∧
      windowsOf dictionary m delta = windowsOf dictionary l delta := by
  obtain ⟨hhalt, houtput⟩ := Session.decode_eq_ok_iff.1 h
  have hunder := Session.traceDelta_under hhalt hallow hplatform
  have hstart : (Session.start dictionary l).under m = .start dictionary m := rfl
  rw [hstart] at hunder
  constructor
  · refine Session.decode_eq_ok_iff.2 ⟨?_, ?_⟩
    · rw [hunder, hhalt]
    · rw [hunder]
      exact houtput
  · rw [windowsOf, hunder]
    rfl

/-- Under all others it is refused for its size. -/
theorem decode_of_not_allowAll (h : decode dictionary l delta = .ok output)
    (hallow : ¬ m.AllowAll (headerSize delta) 0 (windowsOf dictionary l delta))
    (hplatform : m.canAllocate = l.canAllocate) :
    ∃ fault, decode dictionary m delta = .error fault ∧ fault.kind = .limitExceeded := by
  obtain ⟨fault, hhalt, hkind⟩ :=
    Session.traceDelta_under_of_not_allowAll (Session.decode_eq_ok_iff.1 h).1 hallow hplatform
  exact ⟨fault, Session.decode_of_halt_invalid hhalt, hkind⟩

/-- The output of a delta is its targets one after the other. -/
lemma joined_windowsOf (h : decode dictionary l delta = .ok output) :
    joined ((windowsOf dictionary l delta).map Placed.output) = output := by
  obtain ⟨-, houtput⟩ := Session.decode_eq_ok_iff.1 h
  rw [← houtput, Session.output_traceDelta]
  simp [Session.start, windowsOf]

end Decode

end Vcdiff
