import Vcdiff.Proofs.Forms
import Vcdiff.Proofs.Script
import Vcdiff.Proofs.Trace

/-!
Encoding and decoding. An encoder plans each window as a segment and a list of instructions, and
is free in how it writes them down. Whatever it writes under the limits, decoding gives the
targets that the plans define.
-/

namespace Vcdiff

structure Plan where
  segment : Option Segment
  ops : List Op

namespace Plan

def base (dictionary output : Bytes) : Origin → Bytes
  | .dictionary => dictionary
  | .target => output

variable (dictionary output : Bytes) (plan : Plan)

/-- The segment, if there is one, lies inside the bytes that it is taken from. -/
def Inside : Prop :=
  ∀ s ∈ plan.segment, s.offset + s.length ≤ (base dictionary output s.origin).length

def source : Bytes :=
  plan.segment.elim [] fun s => ((base dictionary output s.origin).drop s.offset).take s.length

def target : Bytes := targetOf (plan.source dictionary output) plan.ops

end Plan

def outputOf (dictionary : Bytes) : Bytes → List Plan → Bytes
  | output, [] => output
  | output, plan :: plans => outputOf dictionary (output ++ plan.target dictionary output) plans

/-- A window of `encoded` bytes for a target of `target` bytes after `written` bytes of output is
within the limits. -/
structure Limits.Allow (l : Limits) (encoded written target : Nat) : Prop where
  encoded_le : (encoded : Int) ≤ l.encodedWindow
  target_le : (target : Int) ≤ l.targetWindow
  output_le : ((written + target : Nat) : Int) ≤ l.output
  allocates : 0 < target → l.canAllocate target = true

/-- What an encoder may write for one plan. -/
structure Plan.Encodes (dictionary output : Bytes) (limits : Limits) (plan : Plan) (bytes : Bytes) :
    Prop where
  inside : plan.Inside dictionary output
  form : ∃ (s : Sections) (checksum : Option Nat),
    Script .default (plan.source dictionary output) [] [] plan.ops s ∧
    (∀ c ∈ checksum, c = Checksum.plain Checksum.initial (plan.target dictionary output)) ∧
    Window.Form plan.segment (plan.target dictionary output).length checksum s.data s.instructions
      s.addresses bytes
  allow : limits.Allow bytes.length output.length (plan.target dictionary output).length

/-- What an encoder may write for the plans that are left, after an output. -/
inductive Encodes (dictionary : Bytes) (limits : Limits) : Bytes → List Plan → Bytes → Prop
  | nil (output : Bytes) : Encodes dictionary limits output [] []
  | cons {output : Bytes} {plan : Plan} {plans : List Plan} {bytes rest : Bytes}
    (hplan : plan.Encodes dictionary output limits bytes)
    (h : Encodes dictionary limits (output ++ plan.target dictionary output) plans rest) :
    Encodes dictionary limits output (plan :: plans) (bytes ++ rest)

namespace Limits

variable {l : Limits} {encoded written target : Nat}

lemma Allow.checkEncoded (h : l.Allow encoded written target) : l.checkEncoded encoded = .ok () :=
  checkEncoded_of_le h.encoded_le

lemma Allow.checkTarget (h : l.Allow encoded written target) :
    l.checkTarget written target = .ok () := by
  obtain ⟨-, htarget, houtput, hallocates⟩ := h
  have hmemory : ¬ (0 < target ∧ ¬ l.canAllocate target) := fun ⟨hpos, hno⟩ => hno (hallocates hpos)
  rw [Limits.checkTarget, if_neg (by omega), if_neg (by omega), if_neg hmemory]

end Limits

namespace Session

variable {dictionary output bytes rest : Bytes} {limits : Limits} {plan : Plan}
  {plans : List Plan} {s : Session} {i : Input}

/-- The session has read a plain header, and the windows that made the output. -/
structure Ready (dictionary : Bytes) (limits : Limits) (output : Bytes) (s : Session) : Prop where
  header : s.header.isSome
  table : s.table = .default
  nearSize : s.cache.nearSize = CodeTable.default.nearSize
  sameSize : s.cache.sameSize = CodeTable.default.sameSize
  dictionary : s.dictionary.toList = dictionary
  limits : s.limits = limits
  output : s.output.toList = output

lemma segmentBytes_of_inside (hready : Ready dictionary limits output s)
    (hinside : plan.Inside dictionary output) :
    s.segmentBytes plan.segment = .ok (plan.source dictionary output).toArray := by
  obtain ⟨-, -, -, -, rfl, -, rfl⟩ := hready
  have hextract (bytes : Array UInt8) (offset length : Nat) :
      bytes.extract offset (offset + length)
        = ((bytes.toList.drop offset).take length).toArray := by
    rw [← Array.toList_inj, Array.toList_extract]
    simp
  rcases hsegment : plan.segment with _ | ⟨origin, offset, length⟩
  · simp [segmentBytes, Plan.source, hsegment]
  · have hle := hinside _ hsegment
    rw [Plan.source, hsegment]
    cases origin with
    | dictionary =>
      simp only [Plan.base, Array.length_toList] at hle
      simp only [segmentBytes, Segment.stop, if_neg (Nat.not_lt.2 hle), hextract]
      rfl
    | target =>
      simp only [Plan.base, Array.length_toList] at hle
      simp only [segmentBytes, Segment.stop, if_neg (Nat.not_lt.2 hle), hextract]
      rfl

/-- The replay of a window begins with all of its sections, no addresses and no target. -/
lemma at_progressOf (hready : Ready dictionary limits output s) (w : Window)
    (source : Array UInt8) :
    Replay.At (s.taskOf w source) (s.progressOf w) ⟨w.data, w.instructions, w.addresses⟩ [] [] where
  data := rfl
  instructions := rfl
  addresses := rfl
  nearSize := hready.nearSize.trans (by rw [taskOf, hready.table])
  sameSize := hready.sameSize.trans (by rw [taskOf, hready.table])
  mirrors := AddressCache.mirrors_clear s.cache
  target := rfl
  phase := rfl

/-- **One window.** A session decodes what an encoder has written for a plan. -/
theorem decodeWindow_of_encodes (hready : Ready dictionary limits output s)
    (h : plan.Encodes dictionary output limits bytes) (hrest : i.rest = bytes ++ rest) :
    ∃ t, s.decodeWindow i
        = (.ok ⟨(plan.target dictionary output).toArray, bytes.length⟩, t) ∧
      Ready dictionary limits (output ++ plan.target dictionary output) t := by
  obtain ⟨hinside, ⟨sections, checksum, hscript, hchecksum, hform⟩, hallow⟩ := h
  obtain ⟨w, hreads, hsegment, htargetLength, hwchecksum, hdata, hinstructions, haddresses⟩ :=
    Window.reads_of_form hform i.position
  obtain ⟨hparse, hsize⟩ := Window.parse_of_reads hreads hrest
  have hwritten : s.output.size = output.length := by rw [← hready.output, Array.length_toList]
  have hsource : s.sourceOf w = .ok (plan.source dictionary output).toArray := by
    rw [sourceOf, hsize, htargetLength, hwritten, hready.limits, hallow.checkEncoded,
      hallow.checkTarget, hsegment, segmentBytes_of_inside hready hinside]
    rfl
  have hopen := openWindow_eq_ok_iff.2 ⟨hparse, hsource⟩
  obtain ⟨progress, hrun⟩ : ∃ progress,
      Replay.run (s.taskOf w (plan.source dictionary output).toArray) (s.progressOf w)
        = (.ok (plan.target dictionary output).toArray, progress) := by
    have hat := at_progressOf hready w (plan.source dictionary output).toArray
    rw [hdata, hinstructions, haddresses] at hat
    refine Replay.run_of_script ?_ hat rfl htargetLength.symm ?_
    · rw [taskOf, hready.table]
      exact hscript
    · rw [taskOf, hwchecksum]
      exact fun c hc => (hchecksum c hc).symm
  have hsizes := sizes_of_run hrun
  refine ⟨{ s with
    cache := progress.cache
    output := s.output ++ (plan.target dictionary output).toArray }, ?_, ?_⟩
  · rw [decodeWindow_of_ok hready.header hopen, hrun, hsize]
  · refine ⟨hready.header, hready.table, hsizes.1.trans hready.nearSize,
      hsizes.2.trans hready.sameSize, hready.dictionary, hready.limits, ?_⟩
    rw [Array.toList_append, hready.output]

theorem decodeWindows_of_encodes (hready : Ready dictionary limits output s)
    (h : Encodes dictionary limits output plans bytes) (hrest : i.rest = bytes) :
    ∃ t, s.decodeWindows i = (.ok (), t) ∧
      Ready dictionary limits (outputOf dictionary output plans) t := by
  induction h generalizing s i with
  | nil output => exact ⟨s, decodeWindows_of_empty hrest, hready⟩
  | @cons output plan plans bytes rest hplan h ih =>
    obtain ⟨t, hwindow, ht⟩ := decodeWindow_of_encodes hready hplan hrest
    have hdrop : (i.drop bytes.length).rest = rest := by
      rw [Input.drop, hrest, List.drop_left]
    obtain ⟨u, hwindows, hu⟩ := ih ht hdrop
    exact ⟨u, (decodeWindows_of_window hwindow).trans hwindows, hu⟩

end Session

/-- **Round trip.** Whatever an encoder writes for its plans is decoded to the targets of the
plans. -/
theorem decode_of_encodes {dictionary : Array UInt8} {limits : Limits}
    {application : Option Bytes} {plans : List Plan} {header windows : Bytes}
    (hheader : FileHeader.Form none application header)
    (hwindows : Encodes dictionary.toList limits [] plans windows) :
    decode dictionary limits (header ++ windows)
      = .ok (outputOf dictionary.toList [] plans).toArray := by
  have hparse : FileHeader.parse (.ofBytes 0 (header ++ windows))
      = .ok ⟨none, application, header.length⟩ := FileHeader.parse_of_form hheader rfl rfl
  have hread := Session.readHeader_start dictionary limits hparse rfl
  have hready : Session.Ready dictionary.toList limits []
      ((Session.start dictionary limits).install ⟨none, application, header.length⟩ .default) :=
    ⟨rfl, rfl, rfl, rfl, rfl, rfl, rfl⟩
  have hdrop : ((Input.ofBytes 0 (header ++ windows)).drop header.length).rest = windows := by
    rw [Input.drop, Input.ofBytes, List.drop_left]
  obtain ⟨t, hdecode, ht⟩ := Session.decodeWindows_of_encodes hready hwindows hdrop
  rw [Session.readHeader] at hread
  rw [decode, Session.decode, Session.decodeWith, hread]
  simp only [hdecode]
  rw [← ht.output]

/-- An addition and an overlapping copy that share an opcode, then a run. -/
def dictionaryPlan : Plan := ⟨some ⟨.dictionary, 1, 3⟩, [.add [9], .copy 2 5, .run 7 3]⟩

/-- Two copies, the second from an address that the cache holds by then. -/
def outputPlan : Plan := ⟨some ⟨.target, 1, 5⟩, [.copy 3 2, .copy 3 4]⟩

/-- The first plan, with a padded address and a checksum. -/
lemma encodes_dictionaryPlan : dictionaryPlan.Encodes [1, 2, 3, 4, 5] [] (.default ample)
    [5, 3, 1, 16, 9, 0, 2, 3, 2, 1, 56, 0, 61, 9, 7, 164, 0, 3, 0x80, 2] := by
  have hpaired : CodeTable.default.entry 164 = (.add 1, .copy 5 0) := by decide +kernel
  have hrunning : CodeTable.default.entry 0 = (.run, .noop) := by decide +kernel
  have hadd : HalfForm .default [2, 3, 4] [] [] (CodeTable.default.entry 164).1 (.add [9])
      ⟨[9], [], []⟩ := by
    rw [hpaired]
    exact .add rfl (.known (by decide) rfl)
  have hcopy : HalfForm .default [2, 3, 4] [9] [] (CodeTable.default.entry 164).2 (.copy 2 5)
      ⟨[], [], [0x80, 2]⟩ := by
    rw [hpaired]
    exact .copy rfl (.known (by decide) rfl) (by decide) (.self (.pad Varint.written_of_lt))
  have hrun : HalfForm .default [2, 3, 4] [9, 4, 9, 4, 9, 4] [2] (CodeTable.default.entry 0).1
      (.run 7 3) ⟨[7], [3], []⟩ := by
    rw [hrunning]
    exact .run 7 rfl (.stated rfl Varint.written_of_lt)
  have hscript : Script .default [2, 3, 4] [] [] dictionaryPlan.ops
      ⟨[9, 7], [164, 0, 3], [0x80, 2]⟩ :=
    .two 164 hadd hcopy (.one 0 hrun (congrArg (·.2.kind) hrunning) (.nil _ _))
  have hlengths : Window.LengthsForm ⟨9, 2, 3, 2, some 20447293⟩ [9, 0, 2, 3, 2, 1, 56, 0, 61] :=
    @Window.LengthsForm.mk ⟨9, 2, 3, 2, some 20447293⟩ [9] [2] [3] [2] [1, 56, 0, 61]
      Varint.written_of_lt Varint.written_of_lt Varint.written_of_lt Varint.written_of_lt
      (.some rfl rfl)
  refine ⟨?_, ⟨_, some 20447293, hscript, ?_, ?_⟩, by decide, by decide, by decide, fun _ => rfl⟩
  · rintro s ⟨⟩
    decide
  · rintro c ⟨⟩
    decide +kernel
  · exact @Window.Form.mk _ _ _ [9, 7] [164, 0, 3] [0x80, 2] [3, 1] [16] _
      (.some Varint.written_of_lt Varint.written_of_lt) hlengths Varint.written_of_lt

lemma encodes_outputPlan :
    outputPlan.Encodes [1, 2, 3, 4, 5] [9, 4, 9, 4, 9, 4, 7, 7, 7] (.default ample)
      [2, 5, 1, 10, 6, 0, 0, 3, 2, 19, 2, 116, 3, 3] := by
  have hstated : CodeTable.default.entry 19 = (.copy 0 0, .noop) := by decide +kernel
  have hknown : CodeTable.default.entry 116 = (.copy 4 6, .noop) := by decide +kernel
  have hfirst : HalfForm .default [4, 9, 4, 9, 4] [] [] (CodeTable.default.entry 19).1 (.copy 3 2)
      ⟨[], [2], [3]⟩ := by
    rw [hstated]
    exact .copy rfl (.stated rfl Varint.written_of_lt) (by decide) (.self Varint.written_of_lt)
  have hsecond : HalfForm .default [4, 9, 4, 9, 4] [9, 4] [3] (CodeTable.default.entry 116).1
      (.copy 3 4) ⟨[], [], [3]⟩ := by
    have haddress : AddressCache.AddressForm 4 3 [3] 7 3 (2 + 4 + 0) [3] :=
      .same 3 (by decide) rfl
    rw [hknown]
    exact .copy rfl (.known (by decide) rfl) (by decide) haddress
  have hscript : Script .default [4, 9, 4, 9, 4] [] [] outputPlan.ops
      ⟨[], [19, 2, 116], [3, 3]⟩ :=
    .one 19 hfirst (congrArg (·.2.kind) hstated)
      (.one 116 hsecond (congrArg (·.2.kind) hknown) (.nil _ _))
  have hlengths : Window.LengthsForm ⟨6, 0, 3, 2, none⟩ [6, 0, 0, 3, 2] :=
    @Window.LengthsForm.mk ⟨6, 0, 3, 2, none⟩ [6] [0] [3] [2] []
      Varint.written_of_lt Varint.written_of_lt Varint.written_of_lt Varint.written_of_lt .none
  refine ⟨?_, ⟨_, none, hscript, ?_, ?_⟩, by decide, by decide, by decide, fun _ => rfl⟩
  · rintro s ⟨⟩
    decide
  · rintro c ⟨⟩
  · exact @Window.Form.mk _ _ _ [] [19, 2, 116] [3, 3] [5, 1] [10] _
      (.some Varint.written_of_lt Varint.written_of_lt) hlengths Varint.written_of_lt

/-- Both plans in one file, which has an application header. -/
theorem decode_of_encodes_twoPlans :
    decode #[1, 2, 3, 4, 5] (.default ample)
      ([0xd6, 0xc3, 0xc4, 0, 4, 2, 8, 8] ++
        ([5, 3, 1, 16, 9, 0, 2, 3, 2, 1, 56, 0, 61, 9, 7, 164, 0, 3, 0x80, 2] ++
          ([2, 5, 1, 10, 6, 0, 0, 3, 2, 19, 2, 116, 3, 3] ++ [])))
      = .ok #[9, 4, 9, 4, 9, 4, 7, 7, 7, 9, 4, 9, 4, 9, 4] := by
  have hheader : FileHeader.Form none (some [8, 8]) [0xd6, 0xc3, 0xc4, 0, 4, 2, 8, 8] :=
    .mk .none (.some Varint.written_of_lt)
  have hwindows : Encodes [1, 2, 3, 4, 5] (.default ample) [] [dictionaryPlan, outputPlan] _ :=
    .cons encodes_dictionaryPlan (.cons encodes_outputPlan (.nil _))
  exact decode_of_encodes hheader hwindows

end Vcdiff
