import Vcdiff.Proofs.Session
import Vcdiff.Proofs.Shift
import Vcdiff.Stream

/-!
The trace of a session over an input: the windows that it decodes one after the other, and where
and why it stops. Decoding a whole delta and decoding one that arrives in chunks both read off
the same trace, and the trace of a longer input goes on where that of a shorter one stopped.
-/

namespace Vcdiff

/-- The output of a window, and where in the input the window ends. -/
structure Placed where
  stop : Nat
  output : Array UInt8
  deriving DecidableEq

/-- The windows that have been decoded, the session after them, the input that is left, and what
stops the session there if the input is not used up. -/
structure Trace where
  windows : List Placed
  session : Session
  rest : Input
  halt : Option Halt

namespace Trace

def prepend (windows : List Placed) (t : Trace) : Trace :=
  { t with windows := windows ++ t.windows }

@[simp] lemma prepend_nil (t : Trace) : t.prepend [] = t := rfl

lemma prepend_prepend (as bs : List Placed) (t : Trace) :
    (t.prepend bs).prepend as = t.prepend (as ++ bs) := by
  simp [prepend]

def Open (t : Trace) : Prop := ∀ fault, t.halt ≠ some (.invalid fault)

def shift (k : Nat) (t : Trace) : Trace where
  windows := t.windows.map fun w => { w with stop := w.stop + k }
  session := t.session
  rest := t.rest.shift k
  halt := t.halt.map (·.shift k)

/-- What a decoder makes of the end of a trace, when no more bytes come. -/
def verdict (t : Trace) : Except Fault Unit :=
  match t.halt with
  | none => .ok ()
  | some (.incomplete missing) => .error (.windowCutOff t.rest.position missing)
  | some (.invalid fault) => .error fault

/-- The targets that a stream gives: an empty one is not given. -/
def emitted (t : Trace) : List (Array UInt8) :=
  (t.windows.map Placed.output).filter (!·.isEmpty)

def stream (t : Trace) : Except Fault Stream :=
  match t.halt with
  | some (.invalid fault) => .error fault
  | _ => .ok ⟨t.session, t.rest.rest⟩

end Trace

def joined : List (Array UInt8) → Array UInt8
  | [] => #[]
  | bytes :: rest => bytes ++ joined rest

@[simp] lemma joined_nil : joined [] = #[] := rfl

@[simp] lemma joined_cons (bytes : Array UInt8) (rest : List (Array UInt8)) :
    joined (bytes :: rest) = bytes ++ joined rest := rfl

namespace Session

variable {s t : Session} {i : Input} {d : DecodedWindow}

def trace (s : Session) (input : Input) : Trace :=
  if _hne : input.rest.isEmpty then ⟨[], s, input, none⟩
  else
    match _h : s.decodeWindow input with
    | (.ok d, t) =>
      (trace t (input.drop d.size)).prepend [⟨input.position + d.size, d.output⟩]
    | (.error halt, t) => ⟨[], t, input, some halt⟩
termination_by input.rest.length
decreasing_by
  have := size_pos_of_decodeWindow _h
  have := List.length_pos_iff.2 (fun e => _hne (List.isEmpty_iff.2 e))
  rw [Input.length_rest_drop]
  omega

lemma trace_of_empty (h : i.rest = []) : s.trace i = ⟨[], s, i, none⟩ := by
  rw [trace, dif_pos (List.isEmpty_iff.2 h)]

lemma rest_ne_nil_of_decodeWindow (h : s.decodeWindow i = (.ok d, t)) : i.rest ≠ [] := by
  have hpos := size_pos_of_decodeWindow h
  have hle := size_le_of_decodeWindow h
  exact List.length_pos_iff.1 (by omega)

lemma trace_of_window (h : s.decodeWindow i = (.ok d, t)) :
    s.trace i = (t.trace (i.drop d.size)).prepend [⟨i.position + d.size, d.output⟩] := by
  rw [trace, dif_neg (by simpa using rest_ne_nil_of_decodeWindow h)]
  split <;> simp_all

lemma trace_of_halt {halt : Halt} (hne : i.rest ≠ []) (h : s.decodeWindow i = (.error halt, t)) :
    s.trace i = ⟨[], t, i, some halt⟩ := by
  rw [trace, dif_neg (by simpa using hne)]
  split <;> simp_all

/-! ### Decoding a whole input -/

lemma decodeWindows_of_empty (h : i.rest = []) : s.decodeWindows i = (.ok (), s) := by
  rw [decodeWindows, dif_pos (List.isEmpty_iff.2 h)]

lemma decodeWindows_of_window (h : s.decodeWindow i = (.ok d, t)) :
    s.decodeWindows i = t.decodeWindows (i.drop d.size) := by
  rw [decodeWindows, dif_neg (by simpa using rest_ne_nil_of_decodeWindow h)]
  split <;> simp_all

lemma decodeWindows_of_halt {halt : Halt} (hne : i.rest ≠ [])
    (h : s.decodeWindow i = (.error halt, t)) :
    s.decodeWindows i = (Trace.verdict ⟨[], t, i, some halt⟩, t) := by
  rw [decodeWindows, dif_neg (by simpa using hne)]
  split <;> rename_i heq <;> rw [h] at heq <;> cases heq <;> rfl

theorem decodeWindows_eq (s : Session) (i : Input) :
    s.decodeWindows i = ((s.trace i).verdict, (s.trace i).session) := by
  fun_induction trace s i with
  | case1 s i hempty => exact decodeWindows_of_empty (List.isEmpty_iff.1 hempty)
  | case2 s i hne d t h ih => exact (decodeWindows_of_window h).trans ih
  | case3 s i hne halt t h => exact decodeWindows_of_halt (by simpa using hne) h

/-! ### Draining the bytes of a stream -/

lemma drain_of_window (h : s.decodeWindow i = (.ok d, t)) :
    Stream.drain s i =
      if d.output.isEmpty then Stream.drain t (i.drop d.size)
      else ⟨d.output :: (Stream.drain t (i.drop d.size)).emitted,
        (Stream.drain t (i.drop d.size)).result⟩ := by
  rw [Stream.drain, dif_neg (by simpa using rest_ne_nil_of_decodeWindow h)]
  split <;> simp_all

lemma drain_of_halt {halt : Halt} (hne : i.rest ≠ []) (h : s.decodeWindow i = (.error halt, t)) :
    Stream.drain s i = ⟨[], Trace.stream ⟨[], t, i, some halt⟩⟩ := by
  rw [Stream.drain, dif_neg (by simpa using hne)]
  split <;> rename_i heq <;> rw [h] at heq <;> cases heq <;> rfl

theorem drain_eq (s : Session) (i : Input) :
    Stream.drain s i = ⟨(s.trace i).emitted, (s.trace i).stream⟩ := by
  fun_induction trace s i with
  | case1 s i hempty =>
    have hrest : i.rest = [] := List.isEmpty_iff.1 hempty
    rw [Stream.drain, dif_pos hempty]
    simp [Trace.emitted, Trace.stream, hrest]
  | case2 s i hne d t h ih =>
    rw [drain_of_window h, ih]
    by_cases hempty : d.output.isEmpty
    · simp [hempty, Trace.prepend, Trace.emitted, Trace.stream]
    · simp [hempty, Trace.prepend, Trace.emitted, Trace.stream]
  | case3 s i hne halt t h => exact drain_of_halt (by simpa using hne) h

/-! ### Along a trace -/

/-- The dictionary, the limits, the header and the code table stay; the output grows by the
targets of the windows. -/
theorem session_trace (s : Session) (i : Input) :
    Alike { s with output := s.output ++ joined ((s.trace i).windows.map Placed.output) }
      (s.trace i).session := by
  fun_induction trace s i with
  | case1 s i hempty => exact ⟨s.cache, by simp, rfl, rfl⟩
  | case2 s i hne d t h ih =>
    obtain ⟨-, -, cache, rfl, hnear, hsame⟩ := exists_of_decodeWindow_ok h
    obtain ⟨cache', hsession, hnear', hsame'⟩ := ih
    refine ⟨cache', ?_, hnear'.trans hnear, hsame'.trans hsame⟩
    simpa [Trace.prepend, Array.append_assoc] using hsession
  | case3 s i hne halt t h =>
    simpa using alike_of_decodeWindow_error h

/-- The windows of a trace stand one after the other from the front of the input. -/
theorem rest_trace (s : Session) (i : Input) :
    ∃ n ≤ i.rest.length, (s.trace i).rest = i.drop n ∧
      ∀ w ∈ (s.trace i).windows, i.position < w.stop ∧ w.stop ≤ i.position + n := by
  fun_induction trace s i with
  | case1 s i hempty => exact ⟨0, Nat.zero_le _, rfl, by simp⟩
  | case2 s i hne d t h ih =>
    obtain ⟨n, hn, hrest, hstops⟩ := ih
    have hpos := size_pos_of_decodeWindow h
    have hle := size_le_of_decodeWindow h
    rw [Input.length_rest_drop] at hn
    refine ⟨d.size + n, by omega, ?_, ?_⟩
    · exact hrest.trans (by simp only [Input.drop, List.drop_drop, Nat.add_assoc])
    · intro w hw
      rcases List.mem_append.1 hw with hw | hw
      · rw [List.mem_singleton.1 hw]
        dsimp only
        omega
      · have := hstops w hw
        simp only [Input.drop] at this
        omega
  | case3 s i hne halt t h => exact ⟨0, Nat.zero_le _, rfl, by simp⟩

/-- A trace stops where its last window ends, or where it began. -/
lemma position_rest_trace (s : Session) (i : Input) :
    (s.trace i).rest.position = i.position ∨
      ∃ w ∈ (s.trace i).windows, w.stop = (s.trace i).rest.position := by
  fun_induction trace s i with
  | case1 s i hempty => exact .inl rfl
  | case2 s i hne d t h ih =>
    refine .inr ?_
    rcases ih with hposition | ⟨w, hw, hstop⟩
    · exact ⟨_, List.mem_cons_self, hposition.symm⟩
    · exact ⟨w, List.mem_cons_of_mem _ hw, hstop⟩
  | case3 s i hne halt t h => exact .inl rfl

lemma rest_of_halt_none (h : (s.trace i).halt = none) : (s.trace i).rest.rest = [] := by
  fun_induction trace s i with
  | case1 s i hempty => exact List.isEmpty_iff.1 hempty
  | case2 s i hne d t hd ih => exact ih h
  | case3 s i hne halt t hd => cases h

lemma decodeWindow_of_halt_incomplete {missing : Nat}
    (h : (s.trace i).halt = some (.incomplete missing)) :
    (s.trace i).rest.rest ≠ [] ∧ (s.trace i).session.decodeWindow (s.trace i).rest
      = (.error (.incomplete missing), (s.trace i).session) := by
  fun_induction trace s i with
  | case1 s i hempty => cases h
  | case2 s i hne d t hd ih => exact ih h
  | case3 s i hne halt t hd =>
    cases h
    obtain ⟨-, -, rfl⟩ := decodeWindow_incomplete hd
    exact ⟨by simpa using hne, hd⟩

/-! ### Further bytes -/

/-- A trace that is open goes on where it stopped. -/
theorem trace_extend (hopen : (s.trace i).Open) (more : Bytes) :
    s.trace (i.extend more)
      = ((s.trace i).session.trace ((s.trace i).rest.extend more)).prepend
          (s.trace i).windows := by
  fun_induction trace s i with
  | case1 s i hempty => rfl
  | case2 s i hne d t h ih =>
    have hdrop := Input.drop_extend (size_le_of_decodeWindow h) more
    rw [trace_of_window (decodeWindow_extend h more), hdrop, ih hopen]
    exact Trace.prepend_prepend _ _ _
  | case3 s i hne halt t h =>
    rcases halt with missing | fault
    · obtain ⟨-, -, rfl⟩ := decodeWindow_incomplete h
      rfl
    · exact absurd rfl (hopen fault)

/-- A trace that ends in a fault keeps its windows when more bytes come, and ends in a fault. -/
theorem trace_extend_of_fault {fault : Fault} (hfault : (s.trace i).halt = some (.invalid fault))
    (more : Bytes) :
    (s.trace (i.extend more)).windows = (s.trace i).windows ∧
      ∃ found, (s.trace (i.extend more)).halt = some (.invalid found) ∧
        (found = fault ∨ ∃ size, fault = .encodedWindowTooLarge size s.limits.encodedWindow) := by
  fun_induction trace s i with
  | case1 s i hempty => cases hfault
  | case2 s i hne d t h ih =>
    have hdrop := Input.drop_extend (size_le_of_decodeWindow h) more
    obtain ⟨hwindows, found, hhalt, hfound⟩ := ih hfault
    rw [trace_of_window (decodeWindow_extend h more), hdrop]
    have hlimits : t.limits = s.limits := by
      obtain ⟨-, -, cache, rfl, -⟩ := exists_of_decodeWindow_ok h
      rfl
    rw [hlimits] at hfound
    exact ⟨by simp [Trace.prepend, hwindows], found, hhalt, hfound⟩
  | case3 s i hne halt t h =>
    cases hfault
    obtain ⟨found, u, hmore, hfound⟩ := decodeWindow_extend_of_fault h more
    rw [trace_of_halt (by simp_all) hmore]
    exact ⟨rfl, found, rfl, hfound⟩

/-- The windows of an open trace are those of a longer input that end in the part that is there. -/
theorem lt_stop_of_trace_extend (hopen : (s.trace i).Open) (more : Bytes) :
    ∀ w ∈ ((s.trace i).session.trace ((s.trace i).rest.extend more)).windows,
      i.position + i.rest.length < w.stop := by
  obtain ⟨n, hn, hrest, -⟩ := rest_trace s i
  have hend : (s.trace i).rest.position + (s.trace i).rest.rest.length
      = i.position + i.rest.length := by
    rw [hrest, Input.length_rest_drop]
    simp only [Input.drop]
    omega
  rcases hhalt : (s.trace i).halt with _ | (missing | fault)
  · -- all is used up, so any further window ends in the bytes that have come
    have hempty := rest_of_halt_none hhalt
    intro w hw
    obtain ⟨_, _, _, hstops⟩ := rest_trace (s.trace i).session ((s.trace i).rest.extend more)
    have hlt := (hstops w hw).1
    rw [Input.position_extend] at hlt
    rw [hempty, List.length_nil] at hend
    omega
  · obtain ⟨hne, hmissing⟩ := decodeWindow_of_halt_incomplete hhalt
    rcases hnext : (s.trace i).session.decodeWindow ((s.trace i).rest.extend more) with
      ⟨halt | d, t⟩
    · rw [trace_of_halt (by simp [hne]) hnext]
      simp
    · have hlong := length_lt_of_decodeWindow_extend hmissing hnext
      obtain ⟨_, _, _, hstops⟩ := rest_trace t (((s.trace i).rest.extend more).drop d.size)
      rw [trace_of_window hnext]
      intro w hw
      rcases List.mem_append.1 hw with hw | hw
      · rw [List.mem_singleton.1 hw, Input.position_extend]
        dsimp only
        omega
      · have hlt := (hstops w hw).1
        simp only [Input.drop, Input.position_extend] at hlt
        omega
  · exact absurd hhalt (hopen fault)

/-! ### The same bytes further on -/

theorem trace_shift (k : Nat) (s : Session) (i : Input) :
    s.trace (i.shift k) = (s.trace i).shift k := by
  fun_induction trace s i with
  | case1 s i hempty => exact trace_of_empty (List.isEmpty_iff.1 hempty)
  | case2 s i hne d t h ih =>
    have hshift := decodeWindow_shift s k i
    rw [h] at hshift
    rw [trace_of_window hshift, Input.drop_shift, ih]
    simp only [Trace.prepend, Trace.shift, Input.shift, List.map_append, List.map_cons,
      List.map_nil, Nat.add_right_comm]
  | case3 s i hne halt t h =>
    have hshift := decodeWindow_shift s k i
    rw [h] at hshift
    exact trace_of_halt (i := i.shift k) (by simpa [Input.shift] using hne) hshift

/-! ### The same bytes in another session -/

/-- If a session, changed by `f`, makes of each window what it makes of it unchanged, then so it
does of them all. -/
theorem trace_map {f : Session → Session} {P : Session → Input → Prop}
    (hwindow : ∀ s i, i.rest ≠ [] → P s i →
      (f s).decodeWindow i = ((s.decodeWindow i).1, f (s.decodeWindow i).2))
    (hnext : ∀ s i d t, P s i → s.decodeWindow i = (.ok d, t) → P t (i.drop d.size))
    (h : P s i) : (f s).trace i = { s.trace i with session := f (s.trace i).session } := by
  fun_induction trace s i with
  | case1 s i hempty => exact trace_of_empty (List.isEmpty_iff.1 hempty)
  | case2 s i hne d t hd ih =>
    have hmap : (f s).decodeWindow i = (.ok d, f t) := by
      rw [hwindow s i (by simpa using hne) h, hd]
    rw [trace_of_window hmap, ih (hnext s i d t h hd)]
    rfl
  | case3 s i hne halt t hd =>
    have hne : i.rest ≠ [] := by simpa using hne
    have hmap : (f s).decodeWindow i = (.error halt, f t) := by
      rw [hwindow s i hne h, hd]
    exact trace_of_halt hne hmap

/-- If it makes the same of each window that decodes, then so it does of an input that decodes to
its end. -/
theorem trace_map_of_halt_none {f : Session → Session} {P : Session → Input → Prop}
    (hwindow : ∀ s i d t, P s i → s.decodeWindow i = (.ok d, t) →
      (f s).decodeWindow i = (.ok d, f t) ∧ P t (i.drop d.size))
    (h : P s i) (hhalt : (s.trace i).halt = none) :
    (f s).trace i = { s.trace i with session := f (s.trace i).session } := by
  fun_induction trace s i with
  | case1 s i hempty => exact trace_of_empty (List.isEmpty_iff.1 hempty)
  | case2 s i hne d t hd ih =>
    obtain ⟨hmap, hrest⟩ := hwindow s i d t h hd
    rw [trace_of_window hmap, ih hrest hhalt]
    rfl
  | case3 s i hne halt t hd => cases hhalt

end Session

end Vcdiff
