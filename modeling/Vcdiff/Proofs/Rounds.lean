import Vcdiff.Proofs.DeltaTrace
import Vcdiff.Proofs.Nesting
import Vcdiff.Proofs.Prelude

/-!
How long decoding takes. No window takes fewer than seven bytes and no step of a replay fewer than
one, so both loops can be cut after a number of rounds that the length of their input gives, and
come to the same. The one recursion, by which a delta of a code table is decoded on the way, is one
level deep.
-/

namespace Vcdiff

/-! ### The bytes of a window -/

namespace Parser

variable {α : Type}

lemma Exact.takes {p : Parser α} (hp : Exact p) : Takes 0 p := by
  intro i a j h
  obtain ⟨used, -, hposition⟩ := hp i a j h
  omega

lemma takes_varint : Takes 1 varint := by
  intro i n j h
  rcases hs : Varint.scan Varint.maxValue i.rest with ⟨value, size, rest⟩ | _ | _
  · rw [varint_of_value hs] at h
    cases h
    obtain ⟨used, -, hne, rfl⟩ := Varint.append_of_scan hs
    exact Nat.add_le_add_left (List.length_pos_iff.2 hne) _
  · rw [varint_of_tooLarge hs] at h
    cases h
  · rw [varint_of_cutOff hs] at h
    cases h

lemma takes_orFault {n : Nat} {p : Parser α} (hp : Takes n p) (fault : Fault) :
    Takes n (p.orFault fault) := by
  intro i a j h
  unfold orFault at h
  split at h
  · cases h
  · exact hp i a j h

end Parser

open Vcdiff.Parser

namespace Window

variable {i : Input} {w : Window}

/-- A segment takes two numbers, and no segment takes nothing. -/
lemma takes_preludePart : Takes 2 preludePart :=
  (takes_bind stable_position.takes fun _ =>
    takes_bind (takes_bind (takes_byte 1) fun _ =>
      (stable_bind (stable_failIf _ _) fun _ => stable_bind (stable_failIf _ _) fun _ =>
        stable_pure _).takes) fun _ =>
    takes_bind (stable_segmentPart _).takes fun _ => takes_bind takes_varint fun _ =>
    (stable_bind stable_position fun _ => stable_pure _).takes).mono (by decide)

/-- Four numbers and the delta indicator stand before the checksum. -/
lemma takes_lengthsPart (indicator : UInt8) (deltaLength : Nat) :
    Takes 5 (lengthsPart indicator deltaLength) :=
  (takes_bind (takes_orFault takes_varint _) fun _ =>
    takes_bind (takes_orFault (takes_byte 1) _) fun _ =>
    takes_bind (stable_failIf _ _).takes fun _ => takes_bind (stable_failIf _ _).takes fun _ =>
    takes_bind (takes_orFault takes_varint _) fun _ =>
    takes_bind (takes_orFault takes_varint _) fun _ =>
    takes_bind (takes_orFault takes_varint _) fun _ =>
    takes_bind (exact_orFault (exact_checksumPart indicator) _).takes fun _ =>
    (stable_pure _).takes).mono (by decide)

/-- The sections begin after that. -/
lemma five_le_dataOffset {offset deltaLength : Nat} {indicator : UInt8} {segment : Option Segment}
    {j : Input} (h : deltaPart offset indicator segment deltaLength i = .ok (w, j)) :
    i.position + 5 ≤ w.dataOffset := by
  obtain ⟨n, k, hlengths, h⟩ := bind_eq_ok_iff.1 h
  have htakes := takes_lengthsPart _ _ _ _ _ hlengths
  obtain ⟨_, _, h1, h⟩ := bind_eq_ok_iff.1 h
  cases h1
  obtain ⟨_, _, h2, h⟩ := bind_eq_ok_iff.1 h
  cases h2
  obtain ⟨_, _, h3, h⟩ := bind_eq_ok_iff.1 h
  obtain ⟨-, h3⟩ := failIf_eq_ok_iff.1 h3
  cases h3
  cases h
  exact htakes

/-- The least window has no segment, no checksum and nothing in its sections. -/
theorem seven_le_size_of_parse (h : parse i = .ok w) : 7 ≤ w.size := by
  obtain ⟨p, j, k, delta, rest, hprelude, -, hdelta⟩ := exists_prelude_of_parse h
  have hfront := takes_preludePart _ _ _ hprelude
  have hlengths := five_le_dataOffset hdelta
  have hoffset := (dataOffset_of_deltaPart hdelta).1
  simp only [Input.ofBytes] at hlengths
  unfold size stop addressesOffset instructionsOffset
  omega

example : (parse (.ofBytes 0 [0, 5, 0, 0, 0, 0, 0])).map size = .ok 7 := by
  decide +kernel

end Window

namespace Session

variable {s t : Session} {i : Input} {d : DecodedWindow}

lemma seven_le_size_of_decodeWindow (h : s.decodeWindow i = (.ok d, t)) : 7 ≤ d.size := by
  obtain ⟨-, ⟨w, source, hopen, hsize⟩, -⟩ := exists_of_decodeWindow_ok h
  rw [← hsize]
  exact Window.seven_le_size_of_parse (parse_of_openWindow hopen)

lemma stop_le_of_decodeWindow {bytes : Bytes} {offset : Nat}
    (h : s.decodeWindow (.ofOffset bytes offset) = (.ok d, t)) :
    offset + d.size ≤ bytes.length := by
  have hpos := seven_le_size_of_decodeWindow h
  have hle := size_le_of_decodeWindow h
  simp only [Input.ofOffset, List.length_drop] at hle
  omega

/-! ### The loop over the windows -/

/-- Decodes windows until the input is used up, in at most so many rounds: what `decodeWindows`
gives, and the position at which the loop ends. -/
def decodeWindowsWithin (rounds : Nat) (s : Session) (input : Input) :
    Option ((Except Fault Unit × Session) × Nat) :=
  if input.rest.isEmpty then some ((.ok (), s), input.position)
  else
    match rounds with
    | 0 => none
    | rounds + 1 =>
      match s.decodeWindow input with
      | (.ok d, s) => decodeWindowsWithin rounds s (input.drop d.size)
      | (.error (.incomplete missing), s) =>
        some ((.error (.windowCutOff input.position missing), s), input.position)
      | (.error (.invalid fault), s) => some ((.error fault, s), input.position)

def decodeWithin (rounds : Nat) (s : Session) (delta : Bytes) :
    Option ((Except Fault (Array UInt8) × Session) × Nat) :=
  let input := Input.ofBytes 0 delta
  match s.readHeader input with
  | (.error (.incomplete missing), s) => some ((.error (.headerCutOff missing), s), 0)
  | (.error (.invalid fault), s) => some ((.error fault, s), 0)
  | (.ok header, s) =>
    match s.decodeWindowsWithin rounds (input.drop header.size) with
    | none => none
    | some ((.ok (), s), stop) => some ((.ok s.output, s), stop)
    | some ((.error fault, s), stop) => some ((.error fault, s), stop)

/-- Each round but the last takes seven bytes of the input. -/
theorem decodeWindowsWithin_eq {rounds : Nat} (h : i.rest.length < 7 * rounds) :
    ∃ stop, s.decodeWindowsWithin rounds i = some (s.decodeWindows i, stop) ∧
      ((s.decodeWindows i).1 = .ok () → stop = i.position + i.rest.length) := by
  fun_induction decodeWindowsWithin rounds s i with
  | case1 rounds s i hempty =>
    have hrest : i.rest = [] := List.isEmpty_iff.1 hempty
    rw [decodeWindows_of_empty hrest, hrest]
    exact ⟨i.position, rfl, fun _ => rfl⟩
  | case2 s i hne => omega
  | case3 s i hne rounds d t hd ih =>
    have hseven := seven_le_size_of_decodeWindow hd
    have hsize := size_le_of_decodeWindow hd
    have hlength := Input.length_rest_drop i d.size
    obtain ⟨stop, hloop, hstop⟩ := ih (by omega)
    rw [decodeWindows_of_window hd]
    refine ⟨stop, hloop, fun hok => ?_⟩
    rw [hstop hok, hlength]
    simp only [Input.drop]
    omega
  | case4 s i hne rounds missing t hd =>
    rw [decodeWindows_of_halt (by simpa using hne) hd]
    exact ⟨i.position, rfl, fun h => by cases h⟩
  | case5 s i hne rounds fault t hd =>
    rw [decodeWindows_of_halt (by simpa using hne) hd]
    exact ⟨i.position, rfl, fun h => by cases h⟩

/-- On success the loop ends where the delta does. -/
theorem decodeWithin_eq (s : Session) (delta : Bytes) :
    ∃ stop, s.decodeWithin (delta.length / 7 + 1) delta = some (s.decode delta, stop) ∧
      ∀ output, (s.decode delta).1 = .ok output → stop = delta.length := by
  rcases hread : s.readHeader (.ofBytes 0 delta) with ⟨(missing | fault) | header, t⟩
  · refine ⟨0, ?_, fun output h => ?_⟩
    · simp only [decodeWithin, hread, decode_of_error hread, headerFault]
    · rw [decode_of_error hread] at h
      cases h
  · refine ⟨0, ?_, fun output h => ?_⟩
    · simp only [decodeWithin, hread, decode_of_error hread, headerFault]
    · rw [decode_of_error hread] at h
      cases h
  · obtain ⟨-, hsize⟩ := readHeader_append hread []
    obtain ⟨i, hi⟩ : ∃ i, i = (Input.ofBytes 0 delta).drop header.size := ⟨_, rfl⟩
    have hend : i.position + i.rest.length = delta.length := by
      rw [hi, Input.length_rest_drop]
      simp only [Input.drop, Input.ofBytes]
      omega
    obtain ⟨stop, hloop, hstop⟩ := @decodeWindowsWithin_eq t i (delta.length / 7 + 1) (by omega)
    rw [hend] at hstop
    rw [readHeader] at hread
    rcases hwindows : t.decodeWindows i with ⟨fault | ⟨⟩, u⟩
    · have hdecode : s.decode delta = (.error fault, u) := by
        simp only [decode, decodeWith, hread, ← hi, hwindows]
      rw [hwindows] at hloop
      refine ⟨stop, ?_, fun output h => ?_⟩
      · simp only [decodeWithin, readHeader, hread, ← hi, hloop, hdecode]
      · rw [hdecode] at h
        cases h
    · have hdecode : s.decode delta = (.ok u.output, u) := by
        simp only [decode, decodeWith, hread, ← hi, hwindows]
      rw [hwindows] at hloop hstop
      refine ⟨stop, ?_, fun _ _ => hstop rfl⟩
      simp only [decodeWithin, readHeader, hread, ← hi, hloop, hdecode]

end Session

namespace Replay

variable {task : Task} {p : Progress}

/-! ### The steps of a replay -/

def runWithin (task : Task) : Nat → Progress → Option (Except Fault (Array UInt8) × Progress)
  | 0, _ => none
  | steps + 1, p =>
    match step task p with
    | (.ok true, q) => runWithin task steps q
    | (.ok false, q) => some (.ok q.target, q)
    | (.error fault, q) => some (.error fault, q)

/-- Each step but the last takes an opcode. -/
theorem runWithin_eq {steps : Nat} (h : p.instructions.rest.length < steps) :
    runWithin task steps p = some (run task p) := by
  induction steps generalizing p with
  | zero => omega
  | succ steps ih =>
    rw [runWithin]
    rcases hstep : step task p with ⟨fault | more, q⟩
    · rw [run_of_fault hstep]
    · cases more with
      | false => rw [run_of_done hstep]
      | true =>
        have hlt := step_shortens task hstep
        rw [run_of_more hstep]
        exact ih (by omega)

end Replay

/-- **Bounds.** A window that is decoded takes seven bytes at least and ends in the input. So a
delta is decoded in no more rounds than one for every seven bytes and one, and on success the last
of them ends where the delta does. A replay takes no more steps than one for every byte of its
instructions and one. And loading a table never comes to loading a table that its delta declares,
whatever would be done about that one. -/
theorem decode_bounded :
    (∀ (s t : Session) (bytes : Bytes) (offset : Nat) (d : DecodedWindow),
        s.decodeWindow (.ofOffset bytes offset) = (.ok d, t) →
          7 ≤ d.size ∧ offset + d.size ≤ bytes.length) ∧
      (∀ (s : Session) (delta : Bytes), ∃ stop,
        s.decodeWithin (delta.length / 7 + 1) delta = some (s.decode delta, stop) ∧
          ∀ output, (s.decode delta).1 = .ok output → stop = delta.length) ∧
      (∀ (task : Task) (p : Progress),
        Replay.runWithin task (p.instructions.rest.length + 1) p = some (Replay.run task p)) ∧
      ∀ (canAllocate : Nat → Bool) (load : TableLoader),
        (∀ header, header.table = none → load header = .ok .default) →
          loadTableBy canAllocate load = loadTable canAllocate :=
  ⟨fun _ _ _ _ _ h => ⟨Session.seven_le_size_of_decodeWindow h,
      Session.stop_le_of_decodeWindow h⟩,
    Session.decodeWithin_eq, fun _ _ => Replay.runWithin_eq (Nat.lt_succ_self _),
    fun _ _ hload => loadTableBy_eq hload⟩

/-- Both windows of a delta of 34 bytes, decoded in at most five rounds. -/
theorem decode_bounded_twoWindows :
    (∃ (s t : Session) (d : DecodedWindow), s.decodeWindow (.ofOffset twoWindows 8) = (.ok d, t) ∧
        7 ≤ d.size ∧ 8 + d.size ≤ twoWindows.length) ∧
      (Session.decodeWithin 5 (.start #[1, 2, 3, 4, 5] (.default ample)) twoWindows).map
          (fun r => (r.1.1, r.2)) = some (.ok #[97, 98, 99, 2, 3, 4, 5], 34) ∧
      loadTableBy ample plainTable = loadTable ample := by
  obtain ⟨hwindow, hdecode, -, htable⟩ := decode_bounded
  refine ⟨?_, ?_, htable ample plainTable fun header hnone => by rw [plainTable, hnone]; rfl⟩
  · obtain ⟨s, hs⟩ : ∃ s, s = ((Session.start #[1, 2, 3, 4, 5] (.default ample)).readHeader
      (.ofOffset twoWindows 0)).2 := ⟨_, rfl⟩
    have hok : (s.decodeWindow (.ofOffset twoWindows 8)).1.isOk := by
      rw [hs]
      decide +kernel
    rcases hd : s.decodeWindow (.ofOffset twoWindows 8) with ⟨halt | d, t⟩
    · rw [hd] at hok
      cases hok
    · exact ⟨s, t, d, hd, hwindow s t twoWindows 8 d hd⟩
  · have houtput : ((Session.start #[1, 2, 3, 4, 5] (.default ample)).decode twoWindows).1
        = .ok #[97, 98, 99, 2, 3, 4, 5] := decode_twoWindows
    obtain ⟨stop, hwithin, hstop⟩ := hdecode (.start #[1, 2, 3, 4, 5] (.default ample)) twoWindows
    have hlength : twoWindows.length / 7 + 1 = 5 := by decide
    rw [hlength] at hwithin
    rw [hwithin, Option.map_some, houtput, hstop _ houtput]
    rfl

end Vcdiff
