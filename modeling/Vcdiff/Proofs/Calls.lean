import Vcdiff.Proofs.DeltaTrace

/-!
Runs of calls on one session. A call that fails to read a header or to decode a window leaves
nothing behind but what the address cache holds, and no later call looks at that. So such a call
can be struck from a run, and all that is seen of the other calls stays the same.
-/

namespace Vcdiff

inductive Call where
  | readHeader (bytes : Bytes) (offset : Nat)
  | decodeWindow (bytes : Bytes) (offset : Nat)
  | decode (delta : Bytes)
  deriving DecidableEq

inductive Answer where
  | header (result : Except Halt FileHeader)
  | window (result : Except Halt DecodedWindow)
  | output (result : Except Fault (Array UInt8))

namespace Answer

def Void : Answer → Prop
  | header (.error _) => True
  | window (.error _) => True
  | _ => False

end Answer

structure Record where
  call : Call
  answer : Answer
  header : Option FileHeader
  outputLength : Nat

/-- Some of the records of calls that came to nothing have been struck out. -/
inductive Thinned : List Record → List Record → Prop
  | nil : Thinned [] []
  | keep {records kept : List Record} (r : Record) (h : Thinned records kept) :
    Thinned (r :: records) (r :: kept)
  | strike {records kept : List Record} {r : Record} (hvoid : r.answer.Void)
    (h : Thinned records kept) : Thinned (r :: records) kept

namespace Session

variable {s t u : Session} {i : Input}

def call (s : Session) : Call → Answer × Session
  | .readHeader bytes offset =>
    let (result, t) := s.readHeader (.ofOffset bytes offset)
    (.header result, t)
  | .decodeWindow bytes offset =>
    let (result, t) := s.decodeWindow (.ofOffset bytes offset)
    (.window result, t)
  | .decode delta =>
    let (result, t) := s.decode delta
    (.output result, t)

def after (s : Session) : List Call → Session
  | [] => s
  | c :: calls => (s.call c).2.after calls

def records (s : Session) : List Call → List Record
  | [] => []
  | c :: calls =>
    ⟨c, (s.call c).1, (s.call c).2.header, (s.call c).2.output.size⟩ ::
      (s.call c).2.records calls

/-! ### Sessions that differ in their caches -/

lemma Alike.refl (s : Session) : Alike s s := ⟨s.cache, rfl, rfl, rfl⟩

lemma Alike.symm (h : Alike s t) : Alike t s := by
  obtain ⟨cache, rfl, hnear, hsame⟩ := h
  exact ⟨s.cache, rfl, hnear.symm, hsame.symm⟩

lemma Alike.trans (h : Alike s t) (k : Alike t u) : Alike s u := by
  obtain ⟨cache, rfl, hnear, hsame⟩ := h
  obtain ⟨cache', rfl, hnear', hsame'⟩ := k
  exact ⟨cache', rfl, hnear'.trans hnear, hsame'.trans hsame⟩

lemma Alike.header_eq (h : Alike s t) : t.header = s.header := by
  obtain ⟨cache, rfl, -⟩ := h
  rfl

lemma Alike.limits_eq (h : Alike s t) : t.limits = s.limits := by
  obtain ⟨cache, rfl, -⟩ := h
  rfl

lemma Alike.output_eq (h : Alike s t) : t.output = s.output := by
  obtain ⟨cache, rfl, -⟩ := h
  rfl

/-- A replay clears the cache at its start. -/
lemma progressOf_alike (h : Alike s t) (w : Window) : t.progressOf w = s.progressOf w := by
  obtain ⟨cache, rfl, hnear, hsame⟩ := h
  have hclear : cache.clear = s.cache.clear := by
    rw [AddressCache.clear, AddressCache.clear, hnear, hsame]
  simp only [progressOf, Progress.start, hclear]

lemma readHeader_alike (h : Alike s t) (i : Input) :
    (t.readHeader i).1 = (s.readHeader i).1 ∧ Alike (s.readHeader i).2 (t.readHeader i).2 := by
  have hheader := h.header_eq
  by_cases hsome : s.header.isSome
  case pos =>
    rw [readHeader_of_isSome hsome, readHeader_of_isSome (by rwa [hheader])]
    exact ⟨rfl, h⟩
  case neg =>
    have hsome' : ¬ t.header.isSome := by rwa [hheader]
    rcases hparse : FileHeader.parse i with halt | header
    · rw [readHeader_of_error hsome hparse, readHeader_of_error hsome' hparse]
      exact ⟨rfl, h⟩
    · rw [readHeader_of_ok hsome hparse, readHeader_of_ok hsome' hparse]
      obtain ⟨cache, rfl, -⟩ := id h
      rcases loadTable s.limits.canAllocate header with fault | table
      · exact ⟨rfl, h⟩
      · exact ⟨rfl, .refl _⟩

lemma decodeWindow_alike (h : Alike s t) (i : Input) :
    (t.decodeWindow i).1 = (s.decodeWindow i).1 ∧
      Alike (s.decodeWindow i).2 (t.decodeWindow i).2 := by
  have hheader := h.header_eq
  by_cases hsome : s.header.isSome
  case neg =>
    rw [decodeWindow_of_not_isSome hsome, decodeWindow_of_not_isSome (by rwa [hheader])]
    exact ⟨rfl, h⟩
  case pos =>
    have hsome' : t.header.isSome := by rwa [hheader]
    have hopen : t.openWindow i = s.openWindow i := by
      obtain ⟨cache, rfl, -⟩ := h
      rfl
    rcases ho : s.openWindow i with halt | ⟨w, source⟩
    · rw [decodeWindow_of_error hsome ho, decodeWindow_of_error hsome' (hopen.trans ho)]
      exact ⟨rfl, h⟩
    · have hprogress := progressOf_alike h w
      rw [decodeWindow_of_ok hsome ho, decodeWindow_of_ok hsome' (hopen.trans ho), hprogress]
      obtain ⟨cache, rfl, -⟩ := h
      have htask : taskOf { s with cache } w source = s.taskOf w source := rfl
      rw [htask]
      rcases Replay.run (s.taskOf w source) (s.progressOf w) with ⟨fault | target, progress⟩
      · exact ⟨rfl, .refl _⟩
      · exact ⟨rfl, .refl _⟩

/-- Past its header, a delta is decoded with a cache that is made for it. -/
lemma decode_alike (h : Alike s t) (delta : Bytes) :
    (t.decode delta).1 = (s.decode delta).1 ∧ Alike (s.decode delta).2 (t.decode delta).2 := by
  have hheader := h.header_eq
  obtain ⟨hanswer, halike⟩ := readHeader_alike h (.ofBytes 0 delta)
  rcases hs : s.readHeader (.ofBytes 0 delta) with ⟨halt | header, s'⟩
  · rcases ht : t.readHeader (.ofBytes 0 delta) with ⟨found, t'⟩
    rw [hs, ht] at hanswer halike
    cases hanswer
    rw [decode_of_error hs, decode_of_error ht]
    exact ⟨rfl, halike⟩
  · obtain ⟨hsome, hparse, table, hload, rfl⟩ := exists_of_readHeader_ok hs
    have ht : t.readHeader (.ofBytes 0 delta) = s.readHeader (.ofBytes 0 delta) := by
      rw [hs, readHeader_of_ok (by rwa [hheader]) hparse, h.limits_eq, hload]
      obtain ⟨cache, rfl, -⟩ := h
      rfl
    have hsame : t.decode delta = s.decode delta := by
      rw [readHeader, readHeader, h.limits_eq] at ht
      rw [decode, decode, h.limits_eq, decodeWith, decodeWith, ht]
    rw [hsame]
    exact ⟨rfl, .refl _⟩

/-- **One call.** No call looks at what the cache holds. -/
theorem call_alike (h : Alike s t) (c : Call) :
    (t.call c).1 = (s.call c).1 ∧ Alike (s.call c).2 (t.call c).2 := by
  cases c with
  | readHeader bytes offset =>
    obtain ⟨hanswer, halike⟩ := readHeader_alike h (.ofOffset bytes offset)
    exact ⟨congrArg Answer.header hanswer, halike⟩
  | decodeWindow bytes offset =>
    obtain ⟨hanswer, halike⟩ := decodeWindow_alike h (.ofOffset bytes offset)
    exact ⟨congrArg Answer.window hanswer, halike⟩
  | decode delta =>
    obtain ⟨hanswer, halike⟩ := decode_alike h delta
    exact ⟨congrArg Answer.output hanswer, halike⟩

/-- A call that comes to nothing changes at most what the cache holds. -/
theorem alike_of_void {c : Call} (h : (s.call c).1.Void) : Alike s (s.call c).2 := by
  cases c with
  | readHeader bytes offset =>
    rcases hread : s.readHeader (.ofOffset bytes offset) with ⟨halt | header, t⟩
    · rw [call, hread, session_of_readHeader_error hread]
      exact .refl s
    · simp only [call, hread, Answer.Void] at h
  | decodeWindow bytes offset =>
    rcases hwindow : s.decodeWindow (.ofOffset bytes offset) with ⟨halt | d, t⟩
    · rw [call, hwindow]
      exact alike_of_decodeWindow_error hwindow
    · simp only [call, hwindow, Answer.Void] at h
  | decode delta => exact h.elim

/-! ### What lasts -/

/-- A property of sessions that no call takes away: neither what is in the cache nor the output
counts for it, and a header that is read leaves the session with it. -/
structure Lasting (P : Session → Prop) : Prop where
  alike {s t : Session} (h : Alike s t) : P s → P t
  grow {s : Session} (output : Array UInt8) : P s → P { s with output }
  install {s : Session} {header : FileHeader} {table : CodeTable} (hnone : ¬ s.header.isSome)
    (hload : loadTable s.limits.canAllocate header = .ok table) : P s → P (s.install header table)

section Lasting

variable {P : Session → Prop} (h : Lasting P)
include h

lemma Lasting.readHeader (hs : P s) (i : Input) : P (s.readHeader i).2 := by
  rcases hread : s.readHeader i with ⟨halt | header, t⟩
  · rwa [session_of_readHeader_error hread]
  · obtain ⟨hnone, -, table, hload, rfl⟩ := exists_of_readHeader_ok hread
    exact h.install hnone hload hs

lemma Lasting.decodeWindow (hs : P s) (i : Input) : P (s.decodeWindow i).2 := by
  rcases hwindow : s.decodeWindow i with ⟨halt | d, t⟩
  · exact h.alike (alike_of_decodeWindow_error hwindow) hs
  · obtain ⟨-, -, halike⟩ := exists_of_decodeWindow_ok hwindow
    exact h.alike halike (h.grow _ hs)

lemma Lasting.traceDelta (hs : P s) (delta : Bytes) : P (s.traceDelta delta).session := by
  have hread := h.readHeader hs (.ofBytes 0 delta)
  rcases hheader : s.readHeader (.ofBytes 0 delta) with ⟨halt | header, t⟩
  · rwa [traceDelta_of_error hheader]
  · rw [hheader] at hread
    rw [traceDelta_of_ok hheader]
    exact h.alike (session_trace t _) (h.grow _ hread)

lemma Lasting.decode (hs : P s) (delta : Bytes) : P (s.decode delta).2 := by
  rcases hread : s.readHeader (.ofBytes 0 delta) with ⟨halt | header, t⟩
  · rw [decode_of_error hread, session_of_readHeader_error hread]
    exact hs
  · have htrace := h.traceDelta hs delta
    rw [decode_of_ok hread]
    rcases (s.traceDelta delta).verdict with fault | ⟨⟩ <;> exact htrace

lemma Lasting.call (hs : P s) (c : Call) : P (s.call c).2 := by
  cases c with
  | readHeader bytes offset => exact h.readHeader hs _
  | decodeWindow bytes offset => exact h.decodeWindow hs _
  | decode delta => exact h.decode hs delta

/-- What no call takes away, no run of calls does. -/
theorem Lasting.after (hs : P s) (calls : List Call) : P (s.after calls) := by
  induction calls generalizing s with
  | nil => exact hs
  | cons c calls ih => exact ih (h.call hs c)

end Lasting

/-! ### Runs of calls -/

/-- Struck calls are missed by none of the calls that are left, also on a session with another
cache. -/
theorem records_alike {records kept : List Record} (hthinned : Thinned records kept) {calls}
    (hrecords : s.records calls = records) (h : Alike s t) :
    t.records (kept.map Record.call) = kept ∧
      Alike (s.after calls) (t.after (kept.map Record.call)) := by
  induction hthinned generalizing s t calls with
  | nil =>
    cases calls with
    | nil => exact ⟨rfl, h⟩
    | cons c calls => cases hrecords
  | keep r _ ih =>
    cases calls with
    | nil => cases hrecords
    | cons c calls =>
      obtain ⟨rfl, hrest⟩ := List.cons.inj hrecords
      obtain ⟨hanswer, halike⟩ := call_alike h c
      obtain ⟨hkept, hafter⟩ := ih hrest halike
      refine ⟨?_, hafter⟩
      rw [List.map_cons, Session.records, hkept, hanswer, halike.header_eq, halike.output_eq]
  | strike hvoid _ ih =>
    cases calls with
    | nil => cases hrecords
    | cons c calls =>
      obtain ⟨rfl, hrest⟩ := List.cons.inj hrecords
      obtain ⟨hkept, hafter⟩ := ih hrest ((alike_of_void hvoid).symm.trans h)
      exact ⟨hkept, hafter⟩

lemma lasting_header : Lasting fun s => s.header.isSome where
  alike halike h := by rwa [halike.header_eq]
  grow _ h := h
  install _ _ _ := rfl

/-- A header once read stays, and before that a call that reads none changes nothing. -/
lemma header_call (s : Session) (c : Call) :
    (s.call c).2.header.isSome ∨ (¬ s.header.isSome ∧ (s.call c).2 = s) := by
  by_cases hsome : s.header.isSome
  case pos => exact .inl (lasting_header.call hsome c)
  case neg =>
    cases c with
    | readHeader bytes offset =>
      rcases hread : s.readHeader (.ofOffset bytes offset) with ⟨halt | header, t⟩
      · rw [call, hread, session_of_readHeader_error hread]
        exact .inr ⟨hsome, rfl⟩
      · obtain ⟨-, -, table, -, rfl⟩ := exists_of_readHeader_ok hread
        rw [call, hread]
        exact .inl rfl
    | decodeWindow bytes offset =>
      rw [call, decodeWindow_of_not_isSome hsome]
      exact .inr ⟨hsome, rfl⟩
    | decode delta =>
      rcases hread : s.readHeader (.ofBytes 0 delta) with ⟨halt | header, t⟩
      · rw [call, decode_of_error hread, session_of_readHeader_error hread]
        exact .inr ⟨hsome, rfl⟩
      · have hheader := header_of_traceDelta hread
        rw [call, decode_of_ok hread]
        left
        rcases (s.traceDelta delta).verdict with fault | ⟨⟩
        · simp only [hheader, Option.isSome_some]
        · simp only [hheader, Option.isSome_some]

theorem after_of_header_none {calls : List Call} (h : (s.after calls).header = none) :
    s.after calls = s := by
  induction calls generalizing s with
  | nil => rfl
  | cons c calls ih =>
    have hcall : (s.call c).2.after calls = (s.call c).2 := ih h
    rcases header_call s c with hsome | ⟨-, hsame⟩
    · rw [after, hcall] at h
      rw [h] at hsome
      cases hsome
    · rw [after, hcall, hsame]

/-- **Failed calls.** Calls that did not read a header or decode a window can be struck from any
run of calls: the others give the same answers, and the header and the length of the output are
the same after each of them and at the end. So as long as no header has been read, a delta decodes
to what it decodes to in a fresh session. -/
theorem records_of_thinned (dictionary : Array UInt8) (limits : Limits) :
    (∀ (s : Session) (calls : List Call) (kept : List Record), Thinned (s.records calls) kept →
      s.records (kept.map Record.call) = kept ∧
        (s.after (kept.map Record.call)).header = (s.after calls).header ∧
        (s.after (kept.map Record.call)).output = (s.after calls).output) ∧
      ∀ (calls : List Call) (delta : Bytes),
        ((start dictionary limits).after calls).header = none →
          (((start dictionary limits).after calls).decode delta).1
            = Vcdiff.decode dictionary limits delta := by
  refine ⟨fun s calls kept hthinned => ?_, fun calls delta hnone => ?_⟩
  · obtain ⟨hkept, halike⟩ := records_alike hthinned rfl (.refl s)
    exact ⟨hkept, halike.header_eq, halike.output_eq⟩
  · rw [after_of_header_none hnone, Vcdiff.decode]

/-- The window whose checksum is wrong fails after its copy has put an address into the cache. -/
theorem records_of_thinned_checksum :
    let s := start #[1, 2, 3, 4, 5] (.default ample)
    let header : Call := .readHeader twoWindows 0
    let wrong : Call := .decodeWindow (twoWindows.set 31 16) 19
    let window : Call := .decodeWindow twoWindows 19
    (s.after [header, wrong]).cache.near.toList = [1, 0, 0, 0] ∧
      s.records [header, window] = (s.records [header, wrong, window]).eraseIdx 1 ∧
      ((s.after [window]).decode twoWindows).1 = .ok #[97, 98, 99, 2, 3, 4, 5] := by
  have hstrike (s : Session) (c₁ c₂ c₃ : Call) (hvoid : ((s.call c₁).2.call c₂).1.Void) :
      s.records [c₁, c₃] = (s.records [c₁, c₂, c₃]).eraseIdx 1 :=
    ((records_of_thinned #[] (.default ample)).1 s [c₁, c₂, c₃] _
      (.keep _ (.strike hvoid (.keep _ .nil)))).1
  have hfails : (((start #[1, 2, 3, 4, 5] (.default ample)).readHeader
      (.ofOffset twoWindows 0)).2.decodeWindow (.ofOffset (twoWindows.set 31 16) 19)).1.isOk
      = false := by
    decide +kernel
  refine ⟨by decide +kernel, hstrike _ _ _ _ ?_, ?_⟩
  · rw [call, call]
    rcases hwindow : ((start #[1, 2, 3, 4, 5] (.default ample)).readHeader
      (.ofOffset twoWindows 0)).2.decodeWindow (.ofOffset (twoWindows.set 31 16) 19) with
      ⟨halt | d, t⟩
    · trivial
    · rw [hwindow] at hfails
      cases hfails
  · rw [(records_of_thinned #[1, 2, 3, 4, 5] (.default ample)).2 _ _ (by decide +kernel)]
    exact decode_twoWindows

end Session

end Vcdiff
