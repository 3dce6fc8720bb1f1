import Vcdiff.Proofs.Faults
import Vcdiff.Proofs.Script

/-!
A replay as a state machine. It is called any number of times, for one step or for all that are
left, also after its end. An instruction has room for its bytes before it produces any, so what
holds of the first progress holds of every later one: no more has been produced than the window
declares, and a replay that is done has all of it, with the right checksum. While it runs, what a
call gives says in which phase it leaves the replay; after the end a call is refused, and changes
nothing.
-/

namespace Vcdiff

def Progress.position (p : Progress) : Nat := p.target.size

namespace Replay

inductive Call where
  | step
  | run
  deriving DecidableEq

inductive Given where
  | more (more : Bool)
  | target (target : Array UInt8)
  deriving DecidableEq

def call (task : Task) (p : Progress) : Call → Except Fault Given × Progress
  | .step => ((step task p).1.map .more, (step task p).2)
  | .run => ((run task p).1.map .target, (run task p).2)

def after (task : Task) (p : Progress) : List Call → Progress
  | [] => p
  | c :: calls => after task (call task p c).2 calls

/-- The window has room for what has been produced, and a replay that is done has produced what the
window declares. -/
structure Sound (task : Task) (p : Progress) : Prop where
  position_le : p.position ≤ task.targetLength
  done : p.phase = .done → p.instructions.atEnd ∧ p.position = task.targetLength ∧
    ∀ expected ∈ task.checksum, Checksum.adler32 Checksum.initial p.target.toList = expected

def refusal : Phase → Option Fault
  | .running => none
  | .done => some .replayDone
  | .faulted => some .replayFaulted

/-- The phase is the one that is due after what a call has given. -/
def Ends (q : Progress) : Except Fault Given → Prop
  | .ok (.more true) => q.phase = .running
  | .ok (.more false) => q.phase = .done
  | .ok (.target target) => q.phase = .done ∧ target = q.target
  | .error fault => q.phase = .faulted ∧ fault.kind ≠ .misuse

/-- How a call may take a replay from `p` to `q`. -/
structure Lawful (p : Progress) (result : Except Fault Given) (q : Progress) : Prop where
  position_le : p.position ≤ q.position
  /-- Nothing that has been produced is changed. -/
  kept : p.target.toList <+: q.target.toList
  running : p.phase = .running → Ends q result
  ended : ∀ fault ∈ refusal p.phase, result = .error fault ∧ q = p

variable {task : Task} {p q r : Progress} {α : Type}

/-! ### One instruction -/

/-- A body that an instruction has after the check for room keeps what it keeps where there is
room. -/
lemma keeps_checkRoom_bind {R : Progress → Progress → Prop} (refl : ∀ p, R p p) {n : Nat}
    {x : Action α} (h : ∀ p, n ≤ task.targetLength - p.target.size → R p (x.run.run p).2) :
    Keeps R (do checkRoom task n; x) := by
  intro p
  rw [bind_apply]
  rcases Nat.lt_or_ge (task.targetLength - p.target.size) n with hlt | hle
  · rw [checkRoom_of_lt hlt]
    exact refl p
  · rw [checkRoom_of_le hle]
    exact h p hle

/-- What instructions keep that produce no more than there is room for. -/
lemma keeps_execute_of_room {R : Progress → Progress → Prop} (refl : ∀ p, R p p)
    (trans : ∀ p q r, R p q → R q r → R p r)
    (hvarint : Keeps R (readInstructions (Cursor.readVarint Varint.maxValue)))
    (hadd : ∀ n p, n ≤ task.targetLength - p.target.size →
      R p ((do append (← readData (Cursor.readBytes n)) : Action Unit).run.run p).2)
    (hrun : ∀ n p, n ≤ task.targetLength - p.target.size →
      R p ((do fill (← readData Cursor.readByte) n : Action Unit).run.run p).2)
    (hcopy : ∀ mode n p, n ≤ task.targetLength - p.target.size →
      R p ((copy task mode n).run.run p).2)
    (i : Instruction) : Keeps R (execute task i) := by
  unfold execute
  split
  · exact keeps_pure refl _
  · refine keeps_bind trans (keeps_operandSize refl hvarint i) fun n =>
      keeps_checkRoom_bind refl fun p hroom => ?_
    split
    · exact refl p
    · exact hadd n p hroom
    · exact hrun n p hroom
    · exact hcopy _ n p hroom

/-- What an instruction does to a progress: it produces bytes as far as there is room for them. -/
structure Grows (task : Task) (p q : Progress) : Prop where
  phase : q.phase = p.phase
  kept : p.target.toList <+: q.target.toList
  room : p.position ≤ task.targetLength → q.position ≤ task.targetLength

lemma Grows.refl (p : Progress) : Grows task p p := ⟨rfl, List.prefix_rfl, id⟩

lemma Grows.trans (p q r : Progress) (h : Grows task p q) (k : Grows task q r) :
    Grows task p r :=
  ⟨k.phase.trans h.phase, h.kept.trans k.kept, k.room ∘ h.room⟩

/-- A progress whose target has grown by so many bytes. -/
lemma Grows.of_size {n : Nat} (hphase : q.phase = p.phase)
    (hkept : p.target.toList <+: q.target.toList) (hsize : q.target.size = p.target.size + n)
    (hroom : n ≤ task.targetLength - p.target.size) : Grows task p q := by
  refine ⟨hphase, hkept, fun hle => ?_⟩
  unfold Progress.position at hle ⊢
  omega

lemma grows_append {n : Nat} (hroom : n ≤ task.targetLength - p.target.size) :
    Grows task p ((do append (← readData (Cursor.readBytes n)) : Action Unit).run.run p).2 := by
  rw [bind_apply]
  rcases Nat.lt_or_ge p.data.rest.length n with hlt | hle
  · rw [readData_of_error (Cursor.readBytes_of_lt hlt)]
    exact .refl p
  · rw [readData_of_ok (Cursor.readBytes_of_le hle)]
    show Grows task p { p with data := _, target := p.target ++ (p.data.rest.take n).toArray }
    refine .of_size (n := n) rfl ?_ ?_ hroom
    · simp
    · simp [Nat.min_eq_left hle]

lemma grows_fill {n : Nat} (hroom : n ≤ task.targetLength - p.target.size) :
    Grows task p ((do fill (← readData Cursor.readByte) n : Action Unit).run.run p).2 := by
  rw [bind_apply]
  rcases hread : Cursor.readByte p.data with fault | ⟨byte, data⟩
  · rw [readData_of_error hread]
    exact .refl p
  · rw [readData_of_ok hread]
    show Grows task p { p with data, target := Target.fill p.target byte n }
    refine .of_size (n := n) rfl ?_ ?_ hroom
    · simp [Target.fill_eq_append]
    · simp

lemma grows_copy {mode n : Nat} (hroom : n ≤ task.targetLength - p.target.size) :
    Grows task p ((copy task mode n).run.run p).2 := by
  obtain ⟨address, _, -, hcopy⟩ | ⟨_, _, -, hcopy⟩ := copy_cases task mode n p
  · rw [hcopy]
    refine .of_size (n := n) rfl ?_ ?_ hroom
    · rw [Target.toList_copy]
      exact Target.prefix_copyBytes _ _ _ _
    · rw [Target.size_copy]
  · rw [hcopy]
    exact ⟨rfl, List.prefix_rfl, id⟩

lemma grows_execute (i : Instruction) : Keeps (Grows task) (execute task i) := by
  have hvarint : Keeps (Grows task) (readInstructions (Cursor.readVarint Varint.maxValue)) :=
    keeps_readInstructions (fun _ _ => ⟨rfl, List.prefix_rfl, id⟩) _
  exact keeps_execute_of_room Grows.refl Grows.trans hvarint (fun _ _ => grows_append)
    (fun _ _ => grows_fill) (fun _ _ _ => grows_copy) i

/-- An opcode does no more than its two instructions, also when the second of them fails. -/
lemma grows_executeEntry (task : Task) (e : Entry) :
    Keeps (Grows task) (executeEntry task e) :=
  keeps_bind Grows.trans (grows_execute _) fun _ => grows_execute _

/-! ### One step -/

/-- What a step of a running replay may come to. A fault leaves what has been produced before it,
which may be that of the first of two instructions. -/
inductive Steps (task : Task) (p : Progress) : Except Fault Bool × Progress → Prop
  | done (hend : p.instructions.atEnd) (hverify : verify task p.target = .ok ()) :
    Steps task p (.ok false, { p with phase := .done })
  | more {q : Progress} (h : Grows task p q) : Steps task p (.ok true, q)
  | fault {q : Progress} {fault : Fault} (h : Grows task p q) (hkind : fault.kind ≠ .misuse) :
    Steps task p (.error fault, { q with phase := .faulted })

lemma steps_of_running (hphase : p.phase = .running) : Steps task p (step task p) := by
  have hfault := step_of_running task hphase
  rcases hrest : p.instructions.rest with _ | ⟨opcode, rest⟩
  · rw [step_of_end hphase hrest] at hfault ⊢
    rcases hverify : verify task p.target with fault | ⟨⟩
    · rw [hverify] at hfault
      exact .fault (.refl p) hfault.2
    · exact .done (by simp [Cursor.atEnd, hrest]) hverify
  · have hgrows := grows_executeEntry task (task.table.entry opcode) (afterOpcode p rest)
    rw [step_of_opcode hphase hrest] at hfault ⊢
    rcases hentry : (executeEntry task (task.table.entry opcode)).run.run (afterOpcode p rest)
      with ⟨fault | ⟨⟩, q⟩
    · rw [hentry] at hfault hgrows
      exact .fault ⟨hgrows.phase, hgrows.kept, hgrows.room⟩ hfault.2
    · rw [hentry] at hgrows
      exact .more ⟨hgrows.phase, hgrows.kept, hgrows.room⟩

lemma exists_refusal (h : p.phase ≠ .running) : ∃ fault, fault ∈ refusal p.phase := by
  rcases hphase : p.phase with _ | _ | _
  · exact absurd hphase h
  · exact ⟨_, rfl⟩
  · exact ⟨_, rfl⟩

lemma step_of_refusal {fault : Fault} (h : fault ∈ refusal p.phase) :
    step task p = (.error fault, p) := by
  rcases hphase : p.phase with _ | _ | _
  · simp [refusal, hphase] at h
  · rw [step_of_done hphase]
    simp_all [refusal]
  · rw [step_of_faulted hphase]
    simp_all [refusal]

lemma sound_step (h : Sound task p) : Sound task (step task p).2 := by
  by_cases hphase : p.phase = .running
  case neg =>
    obtain ⟨fault, hfault⟩ := exists_refusal hphase
    rwa [step_of_refusal hfault]
  case pos =>
    obtain ⟨result, q, hstep⟩ : ∃ result q, step task p = (result, q) := ⟨_, _, rfl⟩
    have hsteps := @steps_of_running task p hphase
    rw [hstep] at hsteps ⊢
    cases hsteps with
    | done hend hverify =>
      obtain ⟨hsize, hchecksum⟩ := verify_eq_ok_iff.1 hverify
      exact ⟨h.position_le, fun _ => ⟨hend, hsize, fun expected hexpected => by
        rw [Checksum.adler32_eq_plain]
        exact hchecksum expected hexpected⟩⟩
    | more hgrows =>
      exact ⟨hgrows.room h.position_le, fun hdone => by
        rw [hgrows.phase, hphase] at hdone
        cases hdone⟩
    | fault hgrows hkind => exact ⟨hgrows.room h.position_le, fun hdone => by cases hdone⟩

lemma Lawful.of_kept {result : Except Fault Given} (hphase : p.phase = .running)
    (hkept : p.target.toList <+: q.target.toList) (hends : Ends q result) :
    Lawful p result q where
  position_le := by simpa [Progress.position] using hkept.length_le
  kept := hkept
  running _ := hends
  ended fault hfault := by simp [refusal, hphase] at hfault

lemma Lawful.of_refusal {fault : Fault} (h : fault ∈ refusal p.phase) :
    Lawful p (.error fault) p where
  position_le := Nat.le_refl _
  kept := List.prefix_rfl
  running hphase := by simp [refusal, hphase] at h
  ended found hfound := by
    rw [Option.mem_unique h hfound]
    exact ⟨rfl, rfl⟩

lemma lawful_step (task : Task) (p : Progress) :
    Lawful p ((step task p).1.map .more) (step task p).2 := by
  by_cases hphase : p.phase = .running
  case neg =>
    obtain ⟨fault, hfault⟩ := exists_refusal hphase
    rw [step_of_refusal hfault]
    exact .of_refusal hfault
  case pos =>
    obtain ⟨result, q, hstep⟩ : ∃ result q, step task p = (result, q) := ⟨_, _, rfl⟩
    have hsteps := @steps_of_running task p hphase
    rw [hstep] at hsteps ⊢
    cases hsteps with
    | done hend hverify => exact .of_kept hphase List.prefix_rfl rfl
    | more hgrows => exact .of_kept hphase hgrows.kept (hgrows.phase.trans hphase)
    | fault hgrows hkind => exact .of_kept hphase hgrows.kept ⟨rfl, hkind⟩

/-! ### Any call -/

lemma Lawful.followed {result : Except Fault Given} (h : Lawful p (.ok (.more true)) q)
    (k : Lawful q result r) : Lawful p result r where
  position_le := Nat.le_trans h.position_le k.position_le
  kept := h.kept.trans k.kept
  running hphase := k.running (h.running hphase)
  ended fault hfault := by cases (h.ended fault hfault).1

lemma Lawful.finished (h : Lawful p (.ok (.more false)) q) :
    Lawful p (.ok (.target q.target)) q where
  position_le := h.position_le
  kept := h.kept
  running hphase := ⟨h.running hphase, rfl⟩
  ended fault hfault := by cases (h.ended fault hfault).1

lemma lawful_run (task : Task) (p : Progress) :
    Lawful p ((run task p).1.map .target) (run task p).2 := by
  have hlawful := lawful_step task
  fun_induction run task p with
  | case1 p q hstep ih =>
    have hfirst := hlawful p
    rw [hstep] at hfirst
    exact hfirst.followed ih
  | case2 p q hstep =>
    have hlast := hlawful p
    rw [hstep] at hlast
    exact hlast.finished
  | case3 p fault q hstep =>
    have hlast := hlawful p
    rwa [hstep] at hlast

/-- What every step keeps, calls keep. -/
lemma after_induction {R : Progress → Progress → Prop} (refl : ∀ p, R p p)
    (trans : ∀ p q r, R p q → R q r → R p r) (hstep : ∀ p, R p (step task p).2) (calls : List Call)
    (p : Progress) : R p (after task p calls) := by
  induction calls generalizing p with
  | nil => exact refl p
  | cons c calls ih =>
    have hcall : R p (call task p c).2 := by
      cases c with
      | step => exact hstep p
      | run => exact run_induction trans hstep p
    exact trans _ _ _ hcall (ih _)

lemma sound_after (h : Sound task p) (calls : List Call) : Sound task (after task p calls) :=
  after_induction (R := fun p q => Sound task p → Sound task q) (fun _ => id)
    (fun _ _ _ h k => k ∘ h) (fun _ => sound_step) calls p h

lemma sound_start (task : Task) (data instructions addresses : Cursor) (cache : AddressCache) :
    Sound task (.start data instructions addresses cache) where
  position_le := Nat.zero_le _
  done h := by cases h

/-- **Phases.** After any calls for steps and runs, a replay has produced no more than the window
declares, and it is done only with its instructions used up and with all of the target, which has
the checksum that the window declares. The next call takes nothing back that has been produced. If
the replay is running, the call leaves it running, or done, or faulted if it gives a fault; if not,
the call is refused and changes nothing. -/
theorem lawful_of_calls (task : Task) (data instructions addresses : Cursor)
    (cache : AddressCache) (calls : List Call) :
    let p := after task (.start data instructions addresses cache) calls
    Sound task p ∧ ∀ c, Lawful p (call task p c).1 (call task p c).2 := by
  refine ⟨sound_after (sound_start task data instructions addresses cache) calls, fun c => ?_⟩
  cases c with
  | step => exact lawful_step task _
  | run => exact lawful_run task _

/-- There is no room for the second half of the opcode: the bytes of the first half stay, the replay
is faulted, and the next call is refused. -/
example :
    let task : Task := ⟨.default, #[7, 8, 9, 10], 4, none⟩
    let p := after task (.start (.ofSection "data section" 0 [1])
      (.ofSection "instructions section" 1 [247]) (.ofSection "addresses section" 2 [0])
      (.empty 4 3)) [.run, .step]
    p.phase = .faulted ∧ p.target = #[7, 8, 9, 10] ∧ p.data.rest = [1] ∧
      (call task p .run).1 = .error .replayFaulted := by
  decide +kernel

end Replay

end Vcdiff
