import Vcdiff.Proofs.CodeTable
import Vcdiff.Proofs.DeltaTrace
import Vcdiff.Proofs.Faults
import Vcdiff.Proofs.IndexedDecoding
import Vcdiff.Proofs.Limits

/-!
What decoding never does, whatever it is given: it calls no operation at the wrong time, it makes no
cursor over a region that is not there, and it reads no byte outside of its input.
-/

namespace Vcdiff

variable {canAllocate : Nat → Bool}

/-- Each table that is loaded has caches for its modes. -/
lemma usesModes_of_loadTable {header : FileHeader} {table : CodeTable}
    (h : loadTable canAllocate header = .ok table) : table.UsesModes table.modeCount := by
  unfold loadTable at h
  split at h
  · cases h
    exact CodeTable.default_usesModes
  · rename_i declared htable
    rcases hdecode : decodeTable canAllocate declared.delta with found | bytes
    · rw [hdecode] at h
      cases h
    · rw [hdecode] at h
      exact CodeTable.usesModes_of_ofBytes h

namespace Session

variable {s t : Session} {i : Input} {delta : Bytes} {fault : Fault} {load : TableLoader}

/-! ### Decoding -/

lemma kind_of_segmentBytes {segment : Option Segment} (h : s.segmentBytes segment = .error fault) :
    fault.kind = .lengthMismatch := by
  unfold segmentBytes at h
  split at h
  · cases h
  · split at h <;> split at h <;> cases h <;> rfl

/-- A window that parses is refused for its size or for its segment. -/
lemma ofFormat_of_sourceOf {w : Window} (h : s.sourceOf w = .error fault) :
    fault.kind = .limitExceeded ∨ fault.OfFormat := by
  by_cases hallow : s.limits.Allow w.size s.output.size w.targetLength
  case pos =>
    rw [sourceOf_of_allow hallow] at h
    exact .inr (Fault.ofFormat_of_kind _ (kind_of_segmentBytes h) (by decide))
  case neg =>
    obtain ⟨found, hfound, hkind⟩ := sourceOf_of_not_allow hallow
    rw [hfound] at h
    cases h
    exact .inl hkind

lemma ofFormat_of_openWindow (h : s.openWindow i = .error (.invalid fault)) :
    fault.kind = .limitExceeded ∨ fault.OfFormat := by
  rcases hparse : Window.parse i with (missing | found) | w
  · rcases Int.lt_or_le s.limits.encodedWindow (i.available + missing) with hlt | hle
    · rw [openWindow_of_incomplete_of_lt hparse hlt] at h
      cases h
      exact .inl rfl
    · rw [openWindow_of_incomplete_of_le hparse hle] at h
      cases h
  · rw [openWindow_of_invalid hparse] at h
    cases h
    exact .inr (Window.ofFormat_of_parse hparse)
  · rcases hsource : s.sourceOf w with found | source
    · simp only [openWindow, hparse, hsource] at h
      cases h
      exact ofFormat_of_sourceOf hsource
    · simp only [openWindow, hparse, hsource] at h
      cases h

lemma kind_of_decodeWindow (hheader : s.header.isSome)
    (h : s.decodeWindow i = (.error (.invalid fault), t)) : fault.kind ≠ .misuse := by
  rcases hopen : s.openWindow i with halt | ⟨w, source⟩
  · rw [decodeWindow_of_error hheader hopen] at h
    cases h
    rcases ofFormat_of_openWindow hopen with hkind | hformat
    · simp [hkind]
    · exact hformat.1.2
  · rw [decodeWindow_of_ok hheader hopen] at h
    rcases hrun : Replay.run (s.taskOf w source) (s.progressOf w) with ⟨found | target, progress⟩
    · rw [hrun] at h
      cases h
      exact (Replay.ofDelta_of_run rfl hrun).2
    · rw [hrun] at h
      cases h

/-- What sessions find wrong has `P`: all that is wrong with the format, and all faults of windows
that are decoded in sessions with `Q`. A session that reads a header is one of them from then on. -/
structure Finds (P : Fault → Prop) (Q : Session → Prop) : Prop where
  format {fault : Fault} (h : fault.OfFormat) : P fault
  window {s t : Session} {i : Input} {fault : Fault} (hs : Q s)
    (h : s.decodeWindow i = (.error (.invalid fault), t)) : P fault
  next {s t : Session} {i : Input} {d : DecodedWindow} (hs : Q s)
    (h : s.decodeWindow i = (.ok d, t)) : Q t
  install (s : Session) (header : FileHeader) {table : CodeTable}
    (htable : table.UsesModes table.modeCount) : Q (s.install header table)

section Finds

variable {P : Fault → Prop} {Q : Session → Prop} (h : Finds P Q)
include h

theorem Finds.trace (hs : Q s) (hhalt : (s.trace i).halt = some (.invalid fault)) : P fault := by
  fun_induction Session.trace s i with
  | case1 s i hempty => cases hhalt
  | case2 s i hne d t hd ih => exact ih (h.next hs hd) hhalt
  | case3 s i hne halt t hd =>
    cases hhalt
    exact h.window hs hd

lemma Finds.decodeWindows (hs : Q s) (hfault : (s.decodeWindows i).1 = .error fault) :
    P fault := by
  rw [decodeWindows_eq] at hfault
  rcases hhalt : (s.trace i).halt with _ | (missing | found)
  · simp only [Trace.verdict, hhalt] at hfault
    cases hfault
  · simp only [Trace.verdict, hhalt] at hfault
    cases hfault
    exact h.format (Fault.ofFormat_of_kind .truncatedInput rfl (by decide))
  · simp only [Trace.verdict, hhalt] at hfault
    cases hfault
    exact h.trace hs hhalt

/-- A session that has read no header reads that of the delta, and then its windows. -/
lemma Finds.decodeWith (hheader : ¬ s.header.isSome)
    (hload : ∀ header fault, load header = .error fault → P fault)
    (htable : ∀ header table, load header = .ok table → table.UsesModes table.modeCount)
    (hfault : (s.decodeWith load delta).1 = .error fault) : P fault := by
  rcases hparse : FileHeader.parse (.ofBytes 0 delta) with (missing | found) | header
  · simp only [Session.decodeWith, readHeaderWith, if_neg hheader, hparse] at hfault
    cases hfault
    exact h.format (Fault.ofFormat_of_kind .truncatedInput rfl (by decide))
  · simp only [Session.decodeWith, readHeaderWith, if_neg hheader, hparse] at hfault
    cases hfault
    exact h.format (FileHeader.ofFormat_of_parse hparse)
  · rcases hloaded : load header with found | table
    · simp only [Session.decodeWith, readHeaderWith, if_neg hheader, hparse, hloaded] at hfault
      cases hfault
      exact hload header fault hloaded
    · have hinstall : Q (s.install header table) :=
        h.install s header (htable header table hloaded)
      rcases hwindows : (s.install header table).decodeWindows
          ((Input.ofBytes 0 delta).drop header.size) with ⟨found | ⟨⟩, t⟩
      · rw [Session.install] at hwindows
        simp only [Session.decodeWith, readHeaderWith, if_neg hheader, hparse, hloaded, hwindows]
          at hfault
        cases hfault
        exact h.decodeWindows hinstall (congrArg Prod.fst hwindows)
      · rw [Session.install] at hwindows
        simp only [Session.decodeWith, readHeaderWith, if_neg hheader, hparse, hloaded, hwindows]
          at hfault
        cases hfault

lemma Finds.decodeTable (hfault : Vcdiff.decodeTable canAllocate delta = .error fault) :
    P fault := by
  have hload (header : FileHeader) (fault : Fault) (hplain : plainTable header = .error fault) :
      P fault := by
    unfold plainTable at hplain
    split at hplain <;> cases hplain
    exact h.format (Fault.ofFormat_of_kind .invalidCodeTable rfl (by decide))
  have htable (header : FileHeader) (table : CodeTable) (hplain : plainTable header = .ok table) :
      table.UsesModes table.modeCount := by
    unfold plainTable at hplain
    split at hplain <;> cases hplain
    exact CodeTable.default_usesModes
  unfold Vcdiff.decodeTable at hfault
  split at hfault
  · rename_i found hdecode
    split at hfault <;> cases hfault
    · exact h.format (Fault.ofFormat_of_kind .invalidCodeTable rfl (by decide))
    · exact h.decodeWith (s := .start _ (tableLimits canAllocate)) Bool.false_ne_true hload htable
        hdecode
  · split at hfault <;> cases hfault
    exact h.format (Fault.ofFormat_of_kind .invalidCodeTable rfl (by decide))

/-- The nested session that decodes a table finds no other faults. -/
lemma Finds.loadTable {header : FileHeader}
    (hfault : Vcdiff.loadTable canAllocate header = .error fault) : P fault := by
  unfold Vcdiff.loadTable at hfault
  split at hfault
  · cases hfault
  · rename_i declared htable
    rcases hdecode : Vcdiff.decodeTable canAllocate declared.delta with found | bytes
    · rw [hdecode] at hfault
      cases hfault
      exact h.decodeTable hdecode
    · rw [hdecode] at hfault
      have hbytes : CodeTable.ofBytes bytes.toList declared.nearSize declared.sameSize
          = .error fault := hfault
      exact h.format (Fault.ofFormat_of_kind _ (CodeTable.kind_of_ofBytes hbytes) (by decide))

lemma Finds.decode (hheader : ¬ s.header.isSome) (hfault : (s.decode delta).1 = .error fault) :
    P fault :=
  h.decodeWith hheader (fun _ _ => h.loadTable) (fun _ _ => usesModes_of_loadTable) hfault

end Finds

/-- Once the header has been read, windows can be decoded one after the other. -/
lemma finds_notMisuse : Finds (fun fault => fault.kind ≠ .misuse) (fun s => s.header.isSome) where
  format h := h.1.2
  window := kind_of_decodeWindow
  next {s t i d} hs h := by
    obtain ⟨-, -, cache, rfl, -⟩ := exists_of_decodeWindow_ok h
    exact hs
  install _ _ _ _ := rfl

end Session

/-- Whatever is wrong with a delta, decoding it calls no operation at the wrong time. -/
theorem kind_of_decode {dictionary : Array UInt8} {limits : Limits} {delta : Bytes} {fault : Fault}
    (h : decode dictionary limits delta = .error fault) : fault.kind ≠ .misuse :=
  Session.finds_notMisuse.decode (s := .start dictionary limits) Bool.false_ne_true h

/-- **Safety.** Decoding faults in no other way than by a fault of the input. It comes to the same
if the delta is read by index and the sections of each window are checked to lie in it, and in the
replay of a window each cursor answers by index too. -/
theorem decode_safe (dictionary : Array UInt8) (limits : Limits) (delta : Bytes) :
    (∀ fault, decode dictionary limits delta = .error fault → fault.kind ≠ .misuse) ∧
    decodeAt dictionary limits delta = (decode dictionary limits delta).mapError Stop.ofFault ∧
    ∀ bytes offset w, Window.parse (.ofOffset bytes offset) = .ok w → ∀ s : Session,
      s.progressAt bytes w = .ok (s.progressOf w) ∧
      ∀ task p, Replay.Reaches task (s.progressOf w) p → p.Indexed bytes w :=
  ⟨fun _ => kind_of_decode, decodeAt_eq dictionary limits delta, fun _ _ _ hparse _ =>
    ⟨Session.progressAt_of_parse hparse, fun _ _ => Replay.indexed_of_reaches hparse⟩⟩

/-- The second window has the wrong checksum; in the replay of the first, the step that reads all of
the data leaves its cursor at the end of the section. -/
theorem decode_safe_twoWindows :
    (∃ fault, decode #[1, 2, 3, 4, 5] (.default ample) (twoWindows.set 31 16) = .error fault ∧
      fault.kind ≠ .misuse) ∧
    decodeAt #[1, 2, 3, 4, 5] (.default ample) twoWindows = .ok #[97, 98, 99, 2, 3, 4, 5] ∧
    ∃ (w : Window) (p : Progress), Window.parse (.ofOffset twoWindows 8) = .ok w ∧
      p.data.position = 18 ∧ p.Indexed twoWindows w := by
  refine ⟨?_, ?_, ?_⟩
  · obtain ⟨fault, hdecode, -⟩ := decode_twoWindows_set
    exact ⟨fault, hdecode, (decode_safe #[1, 2, 3, 4, 5] (.default ample) _).1 fault hdecode⟩
  · rw [(decode_safe #[1, 2, 3, 4, 5] (.default ample) twoWindows).2.1, decode_twoWindows]
    rfl
  · let first : Window := {
      offset := 8, segment := none, deltaLength := 9, targetLength := 3, checksum := none
      dataOffset := 15, data := [97, 98, 99], instructions := [4], addresses := [] }
    let start : Progress := (Session.start #[] (.default ample)).progressOf first
    have hparse : Window.parse (.ofOffset twoWindows 8) = .ok first := by decide +kernel
    refine ⟨first, (Replay.step ⟨.default, #[], 3, none⟩ start).2, hparse, by decide +kernel, ?_⟩
    exact ((decode_safe #[] (.default ample) []).2.2 _ _ _ hparse _).2 _ _ (.single rfl)

end Vcdiff
