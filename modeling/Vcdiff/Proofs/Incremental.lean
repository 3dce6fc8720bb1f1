import Vcdiff.FileHeader
import Vcdiff.Proofs.Parser
import Vcdiff.Window

/-!
File headers and windows while bytes are still arriving: what has been parsed stays as it is when
more bytes come, and a window that is not all there takes no fewer bytes than it asks for.
-/

namespace Vcdiff

open Vcdiff.Parser

/-! ### The file header -/

namespace FileHeader

lemma stable_expect (unit : Nat) (expected : Bytes) : Stable (expect unit expected) := by
  induction expected generalizing unit with
  | nil => exact stable_pure ()
  | cons b rest ih =>
    exact stable_bind (stable_byte unit) fun _ => stable_bind (stable_failIf _ _) fun _ => ih _

/-- The version and the indicator, once both are there. -/
lemma stable_versionPart : Stable (do
    need 2
    let found ← byte 2
    failIf (found ≠ version) (.unsupportedVersion found)
    let indicator ← byte 1
    failIf (7 < indicator) (.badHeaderIndicator indicator)
    failIf (indicator &&& compressionBit ≠ 0) .compressedFile
    return indicator) := by
  refine stable_need_bind ?_ ?_
  · exact stable_bind (stable_byte 2) fun _ => stable_bind (stable_failIf _ _) fun _ =>
      stable_bind (stable_byte 1) fun _ => stable_bind (stable_failIf _ _) fun _ =>
      stable_bind (stable_failIf _ _) fun _ => stable_pure _
  · have hrest (indicator : UInt8) : Takes 0 (do
        failIf (7 < indicator) (.badHeaderIndicator indicator)
        failIf (indicator &&& compressionBit ≠ 0) .compressedFile
        return indicator) :=
      (stable_bind (stable_failIf _ _) fun _ => stable_bind (stable_failIf _ _) fun _ =>
        stable_pure _).takes
    exact takes_bind (n := 1) (takes_byte 2) fun _ => takes_bind (m := 0) (stable_failIf _ _).takes
      fun _ => takes_bind (takes_byte 1) hrest

lemma stable_fixedPart : Stable fixedPart :=
  stable_bind (stable_expect _ _) fun _ => stable_versionPart

lemma stable_tableSection : Stable tableSection := by
  refine stable_bind stable_varint fun length => stable_bind (stable_failIf _ _) fun _ =>
    stable_need_bind ?_ ?_
  · exact stable_bind (stable_byte 2) fun _ => stable_bind (stable_byte 1) fun _ =>
      stable_bind (stable_take _) fun _ => stable_pure _
  · refine Takes.mono (n := 1 + (1 + (length - 2 + 0))) ?_ (by omega)
    exact takes_bind (takes_byte 2) fun _ => takes_bind (takes_byte 1) fun _ =>
      takes_bind (takes_take _) fun _ => (stable_pure _).takes

lemma stable_tablePart (indicator : UInt8) : Stable (tablePart indicator) := by
  unfold tablePart
  split
  · exact stable_pure none
  · exact stable_map some stable_tableSection

lemma stable_applicationPart (indicator : UInt8) : Stable (applicationPart indicator) := by
  unfold applicationPart
  split
  · exact stable_pure none
  · exact stable_map some (stable_bind stable_varint stable_take)

lemma parser_stable : Stable parser :=
  stable_bind stable_position fun _ => stable_bind stable_fixedPart fun _ =>
    stable_bind (stable_tablePart _) fun _ => stable_bind (stable_applicationPart _) fun _ =>
    stable_bind stable_position fun _ => stable_pure _

/-- The parts that a header was read from. -/
lemma parser_parts {i j : Input} {header : FileHeader} (h : parser i = .ok (header, j)) :
    ∃ indicator table application j1 j2, fixedPart i = .ok (indicator, j1) ∧
      tablePart indicator j1 = .ok (table, j2) ∧
      applicationPart indicator j2 = .ok (application, j) ∧
      header = ⟨table, application, j.position - i.position⟩ := by
  obtain ⟨_, _, h1, h⟩ := bind_eq_ok_iff.1 h
  cases h1
  obtain ⟨indicator, j1, hfixed, h⟩ := bind_eq_ok_iff.1 h
  obtain ⟨table, j2, htable, h⟩ := bind_eq_ok_iff.1 h
  obtain ⟨application, _, happlication, h⟩ := bind_eq_ok_iff.1 h
  obtain ⟨_, _, h1, h⟩ := bind_eq_ok_iff.1 h
  cases h1
  cases h
  exact ⟨indicator, table, application, j1, j2, hfixed, htable, happlication, rfl⟩

/-- The size that a header states is the number of bytes that it took. -/
lemma parser_size {i j : Input} {header : FileHeader} (h : parser i = .ok (header, j)) :
    header.size = j.position - i.position := by
  obtain ⟨_, _, _, _, _, -, -, -, rfl⟩ := parser_parts h
  rfl

lemma parse_eq_ok_iff {i : Input} (hgap : i.gap = 0) {header : FileHeader} :
    parse i = .ok header ↔ ∃ j, parser i = .ok (header, j) := by
  rw [parse, if_neg (by omega)]
  rcases parser i with halt | ⟨header', j⟩ <;> simp [Functor.map, Except.map]

lemma parse_local {i : Input} (hgap : i.gap = 0) {header : FileHeader}
    (h : parse i = .ok header) :
    ∃ used rest, i.rest = used ++ rest ∧ used.length = header.size ∧
      ∀ tail, parse { i with rest := used ++ tail } = .ok header := by
  obtain ⟨j, hj⟩ := (parse_eq_ok_iff hgap).1 h
  obtain ⟨used, hrest, hpos, -, htail⟩ := parser_stable.loc _ _ _ hj
  have hsize := parser_size hj
  refine ⟨used, j.rest, hrest, by omega, fun tail => ?_⟩
  exact (parse_eq_ok_iff (i := { i with rest := used ++ tail }) hgap).2 ⟨_, htail tail⟩

lemma parse_final {i : Input} {fault : Fault} (h : parse i = .error (.invalid fault))
    (more : Bytes) : parse (i.extend more) = .error (.invalid fault) := by
  unfold parse at h ⊢
  rw [Input.gap_extend]
  split
  · rename_i hgap
    rw [if_pos hgap] at h
    cases h
  · rename_i hgap
    rw [if_neg hgap] at h
    rcases hp : parser i with halt | ⟨header, j⟩
    · rw [hp] at h
      cases h
      rw [parser_stable.final i fault hp more]
      rfl
    · rw [hp] at h
      cases h

end FileHeader

/-! ### The windows -/

namespace Window

lemma stable_indicatorByte : Stable indicatorByte :=
  stable_bind (stable_byte 1) fun _ => stable_bind (stable_failIf _ _) fun _ =>
    stable_bind (stable_failIf _ _) fun _ => stable_pure _

lemma patient_indicatorByte : Patient indicatorByte :=
  patient_bind (stable_byte 1) patient_byte fun _ =>
    (decisive_bind (decisive_failIf _ _) fun _ => decisive_bind (decisive_failIf _ _) fun _ =>
      decisive_pure _).patient

lemma stable_segmentPart : ∀ origin, Stable (segmentPart origin)
  | none => stable_pure none
  | some _ => stable_bind stable_varint fun _ => stable_bind stable_varint fun _ => stable_pure _

lemma patient_segmentPart : ∀ origin, Patient (segmentPart origin)
  | none => patient_pure none
  | some _ => patient_bind stable_varint patient_varint fun _ =>
      patient_bind stable_varint patient_varint fun _ => patient_pure _

lemma decisive_lengthsPart (indicator : UInt8) (deltaLength : Nat) :
    Decisive (lengthsPart indicator deltaLength) :=
  decisive_bind (decisive_orFault _ _) fun _ => decisive_bind (decisive_orFault _ _) fun _ =>
    decisive_bind (decisive_failIf _ _) fun _ => decisive_bind (decisive_failIf _ _) fun _ =>
    decisive_bind (decisive_orFault _ _) fun _ => decisive_bind (decisive_orFault _ _) fun _ =>
    decisive_bind (decisive_orFault _ _) fun _ => decisive_bind (decisive_orFault _ _) fun _ =>
    decisive_pure _

/-- All of the delta encoding is there, so nothing in it is missing. -/
lemma decisive_deltaPart (offset : Nat) (indicator : UInt8) (segment : Option Segment)
    (deltaLength : Nat) : Decisive (deltaPart offset indicator segment deltaLength) :=
  decisive_bind (decisive_lengthsPart _ _) fun _ => decisive_bind decisive_position fun _ =>
    decisive_bind decisive_ahead fun _ => decisive_bind (decisive_failIf _ _) fun _ =>
    decisive_pure _

lemma parser_stable : Stable parser :=
  stable_bind stable_position fun _ => stable_bind stable_indicatorByte fun _ =>
    stable_bind (stable_segmentPart _) fun _ => stable_bind stable_varint fun _ =>
    stable_bind stable_position fun _ => stable_bind (stable_take _) fun _ =>
    stable_within _ _ _

lemma parser_patient : Patient parser :=
  patient_bind stable_position decisive_position.patient fun _ =>
    patient_bind stable_indicatorByte patient_indicatorByte fun _ =>
    patient_bind (stable_segmentPart _) (patient_segmentPart _) fun _ =>
    patient_bind stable_varint patient_varint fun _ =>
    patient_bind stable_position decisive_position.patient fun _ =>
    patient_bind (stable_take _) (patient_take _) fun _ =>
    (decisive_within (decisive_deltaPart _ _ _ _) _ _).patient

section DeltaPart

variable {offset start deltaLength : Nat} {indicator : UInt8} {segment : Option Segment}
  {delta : Bytes} {j : Input} {w : Window}

/-- The lengths that a delta encoding begins with say where its sections are. -/
lemma lengths_of_deltaPart {i : Input}
    (h : deltaPart offset indicator segment deltaLength i = .ok (w, j)) :
    ∃ n, lengthsPart indicator deltaLength i = .ok (n, j) ∧
      n.data + n.instructions + n.addresses = j.rest.length ∧
      w = ⟨offset, segment, deltaLength, n.target, n.checksum, j.position, j.rest.take n.data,
        (j.rest.drop n.data).take n.instructions, j.rest.drop (n.data + n.instructions)⟩ := by
  obtain ⟨n, _, hlengths, h⟩ := bind_eq_ok_iff.1 h
  obtain ⟨_, _, h1, h⟩ := bind_eq_ok_iff.1 h
  cases h1
  obtain ⟨_, _, h2, h⟩ := bind_eq_ok_iff.1 h
  cases h2
  obtain ⟨_, _, h3, h⟩ := bind_eq_ok_iff.1 h
  obtain ⟨hfill, h3⟩ := failIf_eq_ok_iff.1 h3
  cases h3
  cases h
  exact ⟨n, hlengths, Decidable.not_not.1 hfill, rfl⟩

/-- The sections are what follows the lengths in the delta encoding, one after the other. -/
lemma sections_of_deltaPart
    (h : deltaPart offset indicator segment deltaLength (.ofBytes start delta) = .ok (w, j)) :
    ∃ used, delta = used ++ (w.data ++ (w.instructions ++ w.addresses)) ∧
      w.dataOffset = start + used.length := by
  obtain ⟨n, hlengths, -, rfl⟩ := lengths_of_deltaPart h
  obtain ⟨used, hused, hpos⟩ := exact_lengthsPart _ _ _ _ _ hlengths
  refine ⟨used, ?_, hpos⟩
  rw [← List.drop_drop, List.take_append_drop, List.take_append_drop]
  exact hused

/-- The sections end where the delta encoding does. -/
lemma stop_of_deltaPart
    (h : deltaPart offset indicator segment deltaLength (.ofBytes start delta) = .ok (w, j)) :
    w.stop = start + delta.length := by
  obtain ⟨used, hdelta, hoffset⟩ := sections_of_deltaPart h
  rw [hdelta, stop, addressesOffset, instructionsOffset, hoffset]
  simp only [List.length_append]
  omega

end DeltaPart

/-- The parts that a window was read from. -/
lemma parser_parts {i j : Input} {w : Window} (h : parser i = .ok (w, j)) :
    ∃ indicator segment deltaLength delta j1 j2 j3 k, indicatorByte i = .ok (indicator, j1) ∧
      segmentPart (originOf indicator) j1 = .ok (segment, j2) ∧
      varint j2 = .ok (deltaLength, j3) ∧ take deltaLength j3 = .ok (delta, j) ∧
      deltaPart i.position indicator segment deltaLength (.ofBytes j3.position delta)
        = .ok (w, k) := by
  obtain ⟨_, _, h1, h⟩ := bind_eq_ok_iff.1 h
  cases h1
  obtain ⟨indicator, j1, hindicator, h⟩ := bind_eq_ok_iff.1 h
  obtain ⟨segment, j2, hsegment, h⟩ := bind_eq_ok_iff.1 h
  obtain ⟨deltaLength, j3, hlength, h⟩ := bind_eq_ok_iff.1 h
  obtain ⟨_, _, h4, h⟩ := bind_eq_ok_iff.1 h
  cases h4
  obtain ⟨delta, _, htake, h⟩ := bind_eq_ok_iff.1 h
  unfold within at h
  split at h
  · rename_i hdelta
    cases h
    exact ⟨indicator, segment, deltaLength, delta, j1, j2, j3, _, hindicator, hsegment, hlength,
      htake, hdelta⟩
  · cases h

lemma parser_size {i j : Input} {w : Window} (h : parser i = .ok (w, j)) :
    w.offset = i.position ∧ w.stop = j.position := by
  obtain ⟨_, _, _, _, _, _, _, _, -, -, -, htake, hdelta⟩ := parser_parts h
  obtain ⟨hlength, hpos⟩ := length_of_take htake
  exact ⟨(dataOffset_of_deltaPart hdelta).1, by rw [stop_of_deltaPart hdelta, hlength, hpos]⟩

lemma parse_eq_ok_iff {i : Input} {w : Window} :
    parse i = .ok w ↔ ∃ j, parser i = .ok (w, j) := by
  unfold parse
  rcases parser i with halt | ⟨w', j⟩ <;> simp [Functor.map, Except.map]

lemma parse_eq_error_iff {i : Input} {halt : Halt} :
    parse i = .error halt ↔ parser i = .error halt := by
  unfold parse
  rcases parser i with halt | ⟨w', j⟩ <;> simp [Functor.map, Except.map]

lemma parse_local {i : Input} {w : Window} (h : parse i = .ok w) :
    ∃ used rest, i.rest = used ++ rest ∧ used.length = w.size ∧
      ∀ tail, parse { i with rest := used ++ tail } = .ok w := by
  obtain ⟨j, hj⟩ := parse_eq_ok_iff.1 h
  obtain ⟨used, hrest, hpos, -, htail⟩ := parser_stable.loc _ _ _ hj
  obtain ⟨hoffset, hstop⟩ := parser_size hj
  refine ⟨used, j.rest, hrest, by rw [size]; omega, fun tail => ?_⟩
  exact (parse_eq_ok_iff (i := { i with rest := used ++ tail })).2 ⟨_, htail tail⟩

lemma size_le_of_parse {i : Input} {w : Window} (h : parse i = .ok w) :
    w.size ≤ i.rest.length := by
  obtain ⟨used, rest, hrest, hsize, -⟩ := parse_local h
  rw [hrest, List.length_append]
  omega

lemma parse_final {i : Input} {fault : Fault} (h : parse i = .error (.invalid fault))
    (more : Bytes) : parse (i.extend more) = .error (.invalid fault) :=
  parse_eq_error_iff.2 (parser_stable.final i fault (parse_eq_error_iff.1 h) more)

/-- A window that asks for bytes takes at least those, or asks for no fewer in all. -/
lemma parse_patient {i : Input} {missing : Nat} (h : parse i = .error (.incomplete missing)) :
    0 < missing ∧ ∀ more, match parse (i.extend more) with
      | .ok w => i.rest.length + missing ≤ w.size
      | .error (.incomplete still) => missing ≤ more.length + still
      | .error (.invalid _) => True := by
  have hi := parse_eq_error_iff.1 h
  obtain ⟨hpos, hmore⟩ := parser_patient i missing hi
  refine ⟨hpos, fun more => ?_⟩
  rcases hp : parse (i.extend more) with (still | fault) | w
  · simpa [parse_eq_error_iff.1 hp] using hmore more
  · trivial
  · dsimp only
    obtain ⟨used, rest, hrest, hsize, htail⟩ := parse_local hp
    -- the window with the bytes after it left out is still a window, so they were not missing
    rcases List.append_eq_append_iff.1 hrest with ⟨m, hm, -⟩ | ⟨m, hm, -⟩
    · have hok : parse (i.extend m) = .ok w := by
        have := htail []
        rwa [List.append_nil, hm] at this
      obtain ⟨j, hj⟩ := parse_eq_ok_iff.1 hok
      have hle : missing ≤ m.length := by simpa only [hj] using hmore m
      rw [← hsize, hm, List.length_append]
      omega
    · have hok : parse i = .ok w := by
        have := htail m
        rwa [← hm] at this
      rw [hok] at h
      cases h

end Window

end Vcdiff
