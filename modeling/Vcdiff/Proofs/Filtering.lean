import Vcdiff.Proofs.Grammar
import Vcdiff.Proofs.Limits
import Vcdiff.Proofs.Prelude

/-!
Limits as a filter. Up to the first window that is refused for its size, a session does under its
limits what it does under the widest ones. So limits decide which deltas decode, but never what a
delta decodes to, and they put no fault in the place of another.
-/

namespace Vcdiff

/-! ### What a window asks for -/

namespace Parser

variable {α β : Type} {n : Nat}

/-- The parser asks for at most `n` bytes at a time. -/
def Asks (n : Nat) (p : Parser α) : Prop :=
  ∀ i missing, p i = .error (.incomplete missing) → missing ≤ n

lemma Decisive.asks {p : Parser α} (hp : Decisive p) : Asks n p :=
  fun i missing h => absurd h (hp i missing)

/-- What the first parser gives may bound what the second asks for. -/
lemma asks_bind {p : Parser α} {f : α → Parser β} (hp : Asks n p)
    (hf : ∀ i a j, p i = .ok (a, j) → Asks n (f a)) : Asks n (p >>= f) := by
  intro i missing h
  rcases bind_eq_error_iff.1 h with h1 | ⟨a, j, h1, h2⟩
  · exact hp i missing h1
  · exact hf i a j h1 j missing h2

lemma asks_byte (hn : 1 ≤ n) : Asks n (byte 1) := by
  rintro ⟨position, rest, gap⟩ missing h
  rcases rest with _ | ⟨b, rest⟩ <;> cases h
  exact hn

lemma asks_take {k : Nat} (hk : k ≤ n) : Asks n (take k) := by
  intro i missing h
  rcases Nat.lt_or_ge i.rest.length k with hlt | hle
  · rw [take_of_lt hlt] at h
    cases h
    omega
  · rw [take_of_le hle] at h
    cases h

lemma asks_varint (hn : 1 ≤ n) : Asks n varint := by
  intro i missing h
  rcases hs : Varint.scan Varint.maxValue i.rest with ⟨value, size, rest⟩ | _ | _
  · rw [varint_of_value hs] at h
    cases h
  · rw [varint_of_tooLarge hs] at h
    cases h
  · rw [varint_of_cutOff hs] at h
    cases h
    exact hn

lemma le_of_varint {i j : Input} {value : Nat} (h : varint i = .ok (value, j)) :
    value ≤ Varint.maxValue := by
  rcases hs : Varint.scan Varint.maxValue i.rest with ⟨found, size, rest⟩ | _ | _
  · rw [varint_of_value hs] at h
    cases h
    exact Varint.le_of_scanFrom hs
  · rw [varint_of_tooLarge hs] at h
    cases h
  · rw [varint_of_cutOff hs] at h
    cases h

end Parser

open Vcdiff.Parser

namespace Window

lemma asks_segmentPart : ∀ origin, Asks Varint.maxValue (segmentPart origin)
  | none => (decisive_pure none).asks
  | some _ => asks_bind (asks_varint (by decide)) fun _ _ _ _ =>
      asks_bind (asks_varint (by decide)) fun _ _ _ _ => (decisive_pure _).asks

lemma parser_asks : Asks Varint.maxValue parser :=
  asks_bind decisive_position.asks fun _ _ _ _ =>
    asks_bind (asks_bind (asks_byte (by decide)) fun _ _ _ _ =>
      (decisive_bind (decisive_failIf _ _) fun _ => decisive_bind (decisive_failIf _ _) fun _ =>
        decisive_pure _).asks) fun _ _ _ _ =>
    asks_bind (asks_segmentPart _) fun _ _ _ _ =>
    asks_bind (asks_varint (by decide)) fun _ _ _ hlength =>
    asks_bind decisive_position.asks fun _ _ _ _ =>
    asks_bind (asks_take (le_of_varint hlength)) fun _ _ _ _ =>
    (decisive_within (decisive_deltaPart _ _ _ _) _ _).asks

/-- A window that is not all there does not reach beyond the largest delta length. -/
lemma available_add_le {i : Input} {missing : Nat} (h : parse i = .error (.incomplete missing)) :
    i.available + missing ≤ ((i.rest.length + Varint.maxValue : Nat) : Int) := by
  have hasks := parser_asks i missing (parse_eq_error_iff.1 h)
  rw [Input.available]
  omega

/-- No window has a target beyond the largest number that it can state. -/
lemma targetLength_le_of_parse {i : Input} {w : Window} (h : parse i = .ok w) :
    w.targetLength ≤ Varint.maxValue := by
  obtain ⟨-, written, rest, -, -, -, -, ⟨htarget, -⟩, -⟩ := spelled_of_parse h
  exact htarget.1

end Window

/-! ### Wider limits -/

def Halt.Limited (halt : Halt) : Prop :=
  ∃ fault, halt = .invalid fault ∧ fault.kind = .limitExceeded

namespace Limits

variable {l m : Limits} {encoded written target n k total : Nat}

/-- Of the windows in `n` bytes, the second limits refuse none that the first ones let pass, as long
as no more than `total` bytes have been put out. The second limits need not be larger, if they are
larger than what such windows can call for: a window asks for no more than the largest delta length,
and puts out no more than the largest target length. -/
structure Wide (l m : Limits) (n total : Nat) : Prop where
  encoded_le : min l.encodedWindow ((n + Varint.maxValue : Nat) : Int) ≤ m.encodedWindow
  target_le : min l.targetWindow Varint.maxValue ≤ m.targetWindow
  output_le : min l.output ((total + Varint.maxValue : Nat) : Int) ≤ m.output
  platform : m.canAllocate = l.canAllocate

lemma Wide.allow (h : l.Wide m n total) (hallow : l.Allow encoded written target)
    (hencoded : encoded ≤ n) (hwritten : written ≤ total) (htarget : target ≤ Varint.maxValue) :
    m.Allow encoded written target := by
  obtain ⟨hencoded_le, htarget_le, houtput_le, hplatform⟩ := h
  obtain ⟨hencoded', htarget', houtput', hallocates⟩ := hallow
  exact ⟨by omega, by omega, by omega, by rwa [hplatform]⟩

lemma Wide.mono (h : l.Wide m n total) (hk : k ≤ n) : l.Wide m k total := by
  obtain ⟨hencoded, htarget, houtput, hplatform⟩ := h
  exact ⟨by omega, htarget, houtput, hplatform⟩

end Limits

namespace Session

variable {s t : Session} {i : Input} {d : DecodedWindow} {l : Limits} {delta : Bytes}
  {total : Nat}

/-! ### One window -/

lemma openWindow_under (hwide : s.limits.Wide l i.rest.length total)
    (hwritten : s.output.size ≤ total)
    (hhalt : ∀ halt, s.openWindow i = .error halt → ¬ halt.Limited) :
    (s.under l).openWindow i = s.openWindow i := by
  rcases hparse : Window.parse i with (missing | fault) | w
  · rcases Int.lt_or_le s.limits.encodedWindow (i.available + missing) with hlt | hle
    · exact absurd ⟨_, rfl, rfl⟩ (hhalt _ (openWindow_of_incomplete_of_lt hparse hlt))
    · have hwindow : i.available + missing ≤ (s.under l).limits.encodedWindow :=
        Int.le_trans (Int.le_min.2 ⟨hle, Window.available_add_le hparse⟩) hwide.encoded_le
      rw [openWindow_of_incomplete_of_le hparse hle,
        openWindow_of_incomplete_of_le hparse hwindow]
  · rw [openWindow_of_invalid hparse, openWindow_of_invalid hparse]
  · by_cases hallow : s.limits.Allow w.size s.output.size w.targetLength
    case pos =>
      have hallow' : (s.under l).limits.Allow w.size s.output.size w.targetLength :=
        hwide.allow hallow (Window.size_le_of_parse hparse) hwritten
          (Window.targetLength_le_of_parse hparse)
      have hsource : (s.under l).sourceOf w = s.sourceOf w := by
        rw [sourceOf_of_allow hallow, sourceOf_of_allow (s := s.under l) hallow']
        rfl
      simp only [openWindow, hparse, hsource]
    case neg =>
      obtain ⟨fault, hsource, hkind⟩ := sourceOf_of_not_allow hallow
      have hopen : s.openWindow i = .error (.invalid fault) := by
        simp only [openWindow, hparse, hsource]
      exact absurd ⟨fault, rfl, hkind⟩ (hhalt _ hopen)

/-- What a window does under its limits, unless it is refused for its size, it does under wider
ones. -/
lemma decodeWindow_under_wide (hwide : s.limits.Wide l i.rest.length total)
    (hwritten : s.output.size ≤ total)
    (hhalt : ∀ halt, (s.decodeWindow i).1 = .error halt → ¬ halt.Limited) :
    (s.under l).decodeWindow i = ((s.decodeWindow i).1, (s.decodeWindow i).2.under l) := by
  by_cases hheader : s.header.isSome
  case neg =>
    rw [decodeWindow_of_not_isSome hheader, decodeWindow_of_not_isSome (s := s.under l) hheader]
  case pos =>
    have hopen : (s.under l).openWindow i = s.openWindow i :=
      openWindow_under hwide hwritten fun halt h =>
        hhalt halt (by rw [decodeWindow_of_error hheader h])
    rcases hs : s.openWindow i with halt | ⟨w, source⟩
    · rw [decodeWindow_of_error hheader hs,
        decodeWindow_of_error (s := s.under l) hheader (hopen.trans hs)]
    · have hrun : Replay.run ((s.under l).taskOf w source) ((s.under l).progressOf w)
          = Replay.run (s.taskOf w source) (s.progressOf w) := rfl
      rw [decodeWindow_of_ok hheader hs,
        decodeWindow_of_ok (s := s.under l) hheader (hopen.trans hs), hrun]
      rcases Replay.run (s.taskOf w source) (s.progressOf w) with ⟨fault | target, progress⟩ <;> rfl

/-! ### All windows -/

lemma size_le_output_trace (s : Session) (i : Input) :
    s.output.size ≤ (s.trace i).session.output.size := by
  obtain ⟨cache, hsession, -⟩ := session_trace s i
  have houtput := congrArg (Array.size ∘ Session.output) hsession
  simp only [Function.comp_apply, Array.size_append] at houtput
  omega

theorem trace_under_wide (hwide : s.limits.Wide l i.rest.length (s.trace i).session.output.size)
    (hhalt : ∀ halt, (s.trace i).halt = some halt → ¬ halt.Limited) :
    (s.under l).trace i = { s.trace i with session := (s.trace i).session.under l } := by
  refine trace_map (f := (·.under l)) (P := fun s i =>
    s.limits.Wide l i.rest.length (s.trace i).session.output.size ∧
      ∀ halt, (s.trace i).halt = some halt → ¬ halt.Limited) ?_ ?_ ⟨hwide, hhalt⟩
  · rintro s i hne ⟨hwide, hhalt⟩
    refine decodeWindow_under_wide hwide (size_le_output_trace s i) fun halt hd => hhalt halt ?_
    rw [trace_of_halt hne (Prod.ext hd rfl)]
  · rintro s i d t ⟨hwide, hhalt⟩ hd
    rw [trace_of_window hd] at hwide hhalt
    refine ⟨?_, hhalt⟩
    obtain ⟨-, w, source, progress, -, -, -, rfl⟩ := replay_of_decodeWindow hd
    rw [Input.length_rest_drop]
    exact hwide.mono (Nat.sub_le _ _)

theorem traceDelta_under_wide
    (hwide : s.limits.Wide l delta.length (s.traceDelta delta).session.output.size)
    (hhalt : ∀ halt, (s.traceDelta delta).halt = some halt → ¬ halt.Limited) :
    (s.under l).traceDelta delta
      = { s.traceDelta delta with session := (s.traceDelta delta).session.under l } := by
  have hunder := readHeader_under hwide.platform (.ofBytes 0 delta)
  rcases hread : s.readHeader (.ofBytes 0 delta) with ⟨halt | header, t⟩
  · rw [hread] at hunder
    rw [traceDelta_of_error hread, traceDelta_of_error hunder]
  · rw [hread] at hunder
    rw [traceDelta_of_ok hread] at hwide hhalt ⊢
    obtain ⟨-, -, table, -, rfl⟩ := exists_of_readHeader_ok hread
    rw [traceDelta_of_ok hunder]
    refine trace_under_wide ?_ hhalt
    rw [Input.length_rest_drop]
    exact hwide.mono (Nat.sub_le _ _)

theorem decode_under_wide
    (hwide : s.limits.Wide l delta.length (s.traceDelta delta).session.output.size)
    (hhalt : ∀ halt, (s.traceDelta delta).halt = some halt → ¬ halt.Limited) :
    ((s.under l).decode delta).1 = (s.decode delta).1 := by
  have hunder := readHeader_under hwide.platform (.ofBytes 0 delta)
  rcases hread : s.readHeader (.ofBytes 0 delta) with ⟨halt | header, t⟩
  · rw [hread] at hunder
    rw [decode_of_error hread, decode_of_error hunder]
  · rw [hread] at hunder
    have htrace := traceDelta_under_wide hwide hhalt
    have hverdict : ((s.under l).traceDelta delta).verdict = (s.traceDelta delta).verdict := by
      rw [htrace]
      rfl
    rw [decode_of_ok hread, decode_of_ok hunder, hverdict, htrace]
    rcases (s.traceDelta delta).verdict with fault | ⟨⟩ <;> rfl

end Session

/-! ### The widest limits -/

namespace Limits

/-- The largest number that a caller can count bytes with. -/
def largest : Int := 9007199254740991

def widest (canAllocate : Nat → Bool) : Limits := ⟨largest, largest, largest, canAllocate⟩

variable {l : Limits} {start written n total : Nat} {windows : List Placed}

/-- The windows, which begin at `start` after `written` bytes of output, meet the limits that a
caller sets. -/
def MetBy (l : Limits) (start written : Nat) : List Placed → Prop
  | [] => True
  | w :: ws => ((w.stop - start : Nat) : Int) ≤ l.encodedWindow ∧
      (w.output.size : Int) ≤ l.targetWindow ∧
      ((written + w.output.size : Nat) : Int) ≤ l.output ∧
      MetBy l w.stop (written + w.output.size) ws

instance decidableMetBy (l : Limits) :
    ∀ start written windows, Decidable (l.MetBy start written windows)
  | _, _, [] => .isTrue trivial
  | _, written, w :: ws =>
    have := decidableMetBy l w.stop (written + w.output.size) ws
    inferInstanceAs (Decidable (_ ∧ _ ∧ _ ∧ _))

lemma allowAll_iff : l.AllowAll start written windows ↔
    l.MetBy start written windows ∧
      ∀ w ∈ windows, 0 < w.output.size → l.canAllocate w.output.size = true := by
  induction windows generalizing start written with
  | nil => simp [AllowAll, MetBy]
  | cons w ws ih =>
    simp only [AllowAll, MetBy, ih, List.forall_mem_cons]
    constructor
    · rintro ⟨⟨hencoded, htarget, houtput, hallocates⟩, hmet, hall⟩
      exact ⟨⟨hencoded, htarget, houtput, hmet⟩, hallocates, hall⟩
    · rintro ⟨⟨hencoded, htarget, houtput, hmet⟩, hallocates, hall⟩
      exact ⟨⟨hencoded, htarget, houtput, hallocates⟩, hmet, hall⟩

lemma maxValue_le_largest : (Varint.maxValue : Int) ≤ largest := by decide

lemma wide_widest (hencoded : min l.encodedWindow ((n + Varint.maxValue : Nat) : Int) ≤ largest)
    (houtput : min l.output ((total + Varint.maxValue : Nat) : Int) ≤ largest) :
    l.Wide (.widest l.canAllocate) n total where
  encoded_le := hencoded
  target_le := Int.le_trans (Int.min_le_right _ _) maxValue_le_largest
  output_le := houtput
  platform := rfl

end Limits

section Decode

variable {dictionary output : Array UInt8} {l m : Limits} {delta : Bytes}

def outputSize (dictionary : Array UInt8) (limits : Limits) (delta : Bytes) : Nat :=
  (joined ((windowsOf dictionary limits delta).map Placed.output)).size

/-- A decoding that is not refused for the size of a window is the same under wider limits. -/
lemma decode_of_wide (hwide : l.Wide m delta.length (outputSize dictionary l delta))
    (h : ∀ fault, decode dictionary l delta = .error fault → fault.kind ≠ .limitExceeded) :
    decode dictionary m delta = decode dictionary l delta ∧
      windowsOf dictionary m delta = windowsOf dictionary l delta := by
  have hhalt : ∀ halt, ((Session.start dictionary l).traceDelta delta).halt = some halt →
      ¬ halt.Limited := by
    rintro halt hhalt ⟨fault, rfl, hkind⟩
    exact h fault (Session.decode_of_halt_invalid hhalt) hkind
  have hsize : ((Session.start dictionary l).traceDelta delta).session.output.size
      = outputSize dictionary l delta := by
    have hstart : (Session.start dictionary l).output = #[] := rfl
    rw [Session.output_traceDelta, hstart, Array.empty_append]
    rfl
  rw [← hsize] at hwide
  have hstart : (Session.start dictionary l).under m = .start dictionary m := rfl
  have hdecode := Session.decode_under_wide (s := .start dictionary l) hwide hhalt
  have htrace := Session.traceDelta_under_wide (s := .start dictionary l) hwide hhalt
  rw [hstart] at hdecode htrace
  refine ⟨hdecode, ?_⟩
  rw [windowsOf, htrace]
  rfl

/-- **Filtering.** A delta decodes to an output under some limits if it decodes to it under the
widest ones and its windows meet the limits. A fault that is no refusal for size is the fault under
the widest limits too. Limits may even be beyond the widest, if neither the delta nor what it puts
out reaches that far. -/
theorem decode_iff_decode_widest
    (hencoded : min l.encodedWindow ((delta.length + Varint.maxValue : Nat) : Int)
      ≤ Limits.largest)
    (houtput : min l.output ((outputSize dictionary l delta + Varint.maxValue : Nat) : Int)
      ≤ Limits.largest) :
    (∀ output, decode dictionary l delta = .ok output ↔
      decode dictionary (.widest l.canAllocate) delta = .ok output ∧
        l.MetBy (headerSize delta) 0 (windowsOf dictionary (.widest l.canAllocate) delta)) ∧
    ∀ fault, decode dictionary l delta = .error fault → fault.kind ≠ .limitExceeded →
      decode dictionary (.widest l.canAllocate) delta = .error fault := by
  have hwide := Limits.wide_widest hencoded houtput
  constructor
  · intro output
    constructor
    · intro hdecode
      obtain ⟨hwidest, hwindows⟩ := decode_of_wide hwide fun fault h => by
        rw [hdecode] at h
        cases h
      rw [hwindows]
      exact ⟨hwidest.trans hdecode, (Limits.allowAll_iff.1 (allowAll_of_decode hdecode)).1⟩
    · rintro ⟨hwidest, hmet⟩
      have hallow : l.AllowAll (headerSize delta) 0
          (windowsOf dictionary (.widest l.canAllocate) delta) :=
        Limits.allowAll_iff.2 ⟨hmet, (allowAll_of_decode hwidest).allocates⟩
      exact (decode_of_allowAll hwidest hallow rfl).1
  · intro fault hfault hkind
    have hwidest := (decode_of_wide hwide fun found h => by
      rw [hfault] at h
      cases h
      exact hkind).1
    exact hwidest.trans hfault

/-- The windows take 11 and 15 bytes, and their targets 3 and 4. -/
theorem decode_iff_decode_widest_twoWindows :
    decode #[1, 2, 3, 4, 5] (.ofOptions ample (some 4) (some 7) (some 15)) twoWindows
        = .ok #[97, 98, 99, 2, 3, 4, 5] ∧
      (∀ output, decode #[1, 2, 3, 4, 5] (.ofOptions ample (some 4) (some 6) none) twoWindows
        ≠ .ok output) ∧
      ∃ fault, decode #[1, 2, 3, 4, 5] (.widest ample) (twoWindows.set 31 16) = .error fault ∧
        fault.kind = .checksumMismatch := by
  have hwidest : decode #[1, 2, 3, 4, 5] (.widest ample) twoWindows
      = .ok #[97, 98, 99, 2, 3, 4, 5] := by
    decide +kernel
  refine ⟨?_, fun output h => ?_, ?_⟩
  · exact ((decode_iff_decode_widest (by decide) (by decide +kernel)).1 _).2
      ⟨hwidest, by decide +kernel⟩
  · have hmet := (((decode_iff_decode_widest (by decide) (by decide +kernel)).1 _).1 h).2
    exact absurd hmet (by decide +kernel)
  · obtain ⟨fault, hdecode, hkind⟩ := decode_twoWindows_set
    refine ⟨fault, ?_, hkind⟩
    exact (decode_iff_decode_widest (by decide) (by decide +kernel)).2 fault hdecode
      (by simp [hkind])

end Decode

end Vcdiff
