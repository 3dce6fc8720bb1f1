import Vcdiff.Proofs.DeltaTrace

/-!
Deltas that are cut off. A front part of a delta that decodes is itself a delta that decodes when
the cut stands right after the file header or after a window, and truncated input when it stands
anywhere else.
-/

namespace Vcdiff

namespace Session

variable {s t : Session} {front more : Bytes} {header : FileHeader}

/-- The trace of the front part is complete just when the cut stands after the header or after
a window. -/
lemma halt_eq_none_iff_mem (hopen : (s.traceDelta front).Open)
    (hread : s.readHeader (.ofBytes 0 (front ++ more)) = (.ok header, t)) :
    (s.traceDelta front).halt = none ↔
      front.length ∈ header.size :: (s.traceDelta (front ++ more)).windows.map Placed.stop := by
  obtain ⟨hnone, -⟩ := exists_of_readHeader_ok hread
  have hwindows := windows_traceDelta_append hnone hopen more
  rcases hfront : s.readHeader (.ofBytes 0 front) with ⟨(missing | fault) | found, u⟩
  · -- the cut stands before the end of the header, and so before all windows
    have hlong := length_lt_of_readHeader_append hfront hread
    rw [traceDelta_of_error hfront]
    simp only [reduceCtorEq, false_iff, List.mem_cons, List.mem_map, not_or, not_exists, not_and]
    refine ⟨by omega, fun w hw heq => ?_⟩
    have := size_lt_stop hread w hw
    omega
  · rw [traceDelta_of_error hfront] at hopen
    exact absurd rfl (hopen fault)
  · obtain ⟨happend, -⟩ := readHeader_append hfront more
    rw [hread] at happend
    cases happend
    obtain ⟨stop, hstop, hheader, hlength, hearly⟩ := stop_traceDelta hfront
    rw [halt_eq_none_iff hopen hfront, ← List.length_eq_zero_iff]
    constructor
    · intro hempty
      rw [← hlength, hempty, Nat.add_zero]
      rw [hwindows] at hstop
      exact List.cons_subset_cons _ (List.map_subset _ List.filter_sublist.subset) hstop
    · -- all that has been read ends before what is left
      intro hcut
      rcases List.mem_cons.1 hcut with heq | hcut
      · omega
      · obtain ⟨w, hw, hwstop⟩ := List.mem_map.1 hcut
        have hkept : w ∈ (s.traceDelta front).windows := by
          rw [hwindows, List.mem_filter]
          exact ⟨hw, by simp [hwstop]⟩
        have := hearly w hkept
        omega

end Session

/-- **Truncation.** A delta that decodes can be cut after its header and after each of its
windows, and then gives the targets of the windows that are left; cut anywhere else it is
truncated input. -/
theorem decode_take {dictionary : Array UInt8} {limits : Limits} {delta : Bytes}
    {output : Array UInt8} (h : decode dictionary limits delta = .ok output) :
    ∃ header, FileHeader.parse (.ofBytes 0 delta) = .ok header ∧
      ∀ n ≤ delta.length,
        if n ∈ header.size :: (windowsOf dictionary limits delta).map Placed.stop then
          decode dictionary limits (delta.take n) = .ok (joined
            (((windowsOf dictionary limits delta).filter (·.stop ≤ n)).map Placed.output))
        else
          ∃ fault, decode dictionary limits (delta.take n) = .error fault ∧
            fault.kind = .truncatedInput := by
  have hnone : ¬ (Session.start dictionary limits).header.isSome := Bool.false_ne_true
  rcases hread : (Session.start dictionary limits).readHeader (.ofBytes 0 delta) with
    ⟨halt | header, t⟩
  · rw [decode, Session.decode_of_error hread] at h
    cases h
  obtain ⟨-, hparse, -⟩ := Session.exists_of_readHeader_ok hread
  have hopen : ((Session.start dictionary limits).traceDelta delta).Open := by
    intro fault hfault
    rw [decode, Session.decode_of_halt_invalid hfault] at h
    cases h
  refine ⟨header, hparse, fun n hn => ?_⟩
  have hlen : (delta.take n).length = n := by rw [List.length_take, Nat.min_eq_left hn]
  rw [← List.take_append_drop n delta] at hread hopen
  have hfront := Session.open_of_append hopen
  have hcut := Session.halt_eq_none_iff_mem hfront hread
  have hwindows := Session.windows_traceDelta_append hnone hfront (delta.drop n)
  rw [List.take_append_drop, hlen] at hcut hwindows
  split
  · rename_i hmem
    rw [decode, Session.decode_of_halt_none (hcut.2 hmem), Session.output_traceDelta, hwindows]
    exact congrArg Except.ok Array.empty_append
  · rename_i hmem
    rcases hhalt : ((Session.start dictionary limits).traceDelta (delta.take n)).halt with
      _ | (missing | fault)
    · exact absurd (hcut.1 hhalt) hmem
    · exact Session.decode_of_halt_incomplete hhalt
    · exact absurd hhalt (hfront fault)

theorem decode_take_twoWindows :
    decode #[1, 2, 3, 4, 5] (.default ample) twoWindows = .ok #[97, 98, 99, 2, 3, 4, 5] ∧
      ∀ n ≤ twoWindows.length, n ∈ [8, 19, 34] ∨
        ∃ fault, decode #[1, 2, 3, 4, 5] (.default ample) (twoWindows.take n) = .error fault ∧
          fault.kind = .truncatedInput := by
  have hsize : (FileHeader.parse (.ofBytes 0 twoWindows)).map FileHeader.size = .ok 8 := by
    decide +kernel
  obtain ⟨header, hparse, hcut⟩ := decode_take decode_twoWindows
  rw [hparse] at hsize
  rw [windowsOf_twoWindows, Except.ok.inj hsize] at hcut
  refine ⟨decode_twoWindows, fun n hn => ?_⟩
  have := hcut n hn
  split at this
  · left
    assumption
  · exact .inr this

end Vcdiff
