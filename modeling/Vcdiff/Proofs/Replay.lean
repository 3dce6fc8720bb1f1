import Mathlib.Tactic.Common
import Vcdiff.Replay

/-!
What one step of a replay does, and what a whole replay does step by step.
-/

namespace Vcdiff.Replay

variable {task : Task} {p q : Progress}

def afterOpcode (p : Progress) (rest : Bytes) : Progress :=
  { p with instructions := { p.instructions with position := p.instructions.position + 1, rest } }

/-! ### One step -/

lemma step_of_end (hphase : p.phase = .running) (h : p.instructions.rest = []) :
    step task p = match verify task p.target with
      | .ok () => (.ok false, { p with phase := .done })
      | .error fault => (.error fault, { p with phase := .faulted }) := by
  rcases p with ⟨data, ⟨label, start, position, rest⟩, addresses, cache, target, phase⟩
  subst hphase h
  show (match verify task target with | .ok () => _ | .error fault => _) = _
  rcases verify task target with fault | ⟨⟩ <;> rfl

lemma step_of_opcode {opcode : UInt8} {rest : Bytes} (hphase : p.phase = .running)
    (h : p.instructions.rest = opcode :: rest) :
    step task p = match (executeEntry task (task.table.entry opcode)).run.run
        (afterOpcode p rest) with
      | (.ok (), q) => (.ok true, q)
      | (.error fault, q) => (.error fault, { q with phase := .faulted }) := by
  rcases p with ⟨data, ⟨label, start, position, _⟩, addresses, cache, target, phase⟩
  subst hphase h
  rfl

lemma step_of_done (hphase : p.phase = .done) : step task p = (.error .replayDone, p) := by
  rw [step, hphase]

lemma step_of_faulted (hphase : p.phase = .faulted) :
    step task p = (.error .replayFaulted, p) := by
  rw [step, hphase]

/-! ### The whole replay -/

lemma run_of_more (h : step task p = (.ok true, q)) : run task p = run task q := by
  rw [run]
  split <;> simp_all

lemma run_of_done (h : step task p = (.ok false, q)) : run task p = (.ok q.target, q) := by
  rw [run]
  split <;> simp_all

lemma run_of_fault {fault : Fault} (h : step task p = (.error fault, q)) :
    run task p = (.error fault, q) := by
  rw [run]
  split <;> simp_all

/-- What every step keeps, a whole replay keeps. -/
lemma run_induction {R : Progress → Progress → Prop} (trans : ∀ p q r, R p q → R q r → R p r)
    (hstep : ∀ p, R p (step task p).2) (p : Progress) : R p (run task p).2 := by
  fun_induction run task p with
  | case1 p q h ih =>
    have := hstep p
    rw [h] at this
    exact trans _ _ _ this ih
  | case2 p q h =>
    have := hstep p
    rwa [h] at this
  | case3 p fault q h =>
    have := hstep p
    rwa [h] at this

/-- What the opcode, the instructions and the phase keep, a step keeps. -/
lemma keeps_step {R : Progress → Progress → Prop} (refl : ∀ p, R p p)
    (trans : ∀ p q r, R p q → R q r → R p r) (hphase : ∀ p phase, R p { p with phase })
    (hopcode : ∀ p opcode instructions,
      Cursor.readByte p.instructions = .ok (opcode, instructions) → R p { p with instructions })
    (hexecute : ∀ i, Keeps R (execute task i)) (p : Progress) : R p (step task p).2 := by
  unfold step
  split
  · exact refl p
  · exact refl p
  · rcases hread : Cursor.readByte p.instructions with fault | ⟨opcode, instructions⟩
    · dsimp only
      split <;> exact hphase p _
    · have hentry : Keeps R (executeEntry task (task.table.entry opcode)) :=
        keeps_bind trans (hexecute _) fun _ => hexecute _
      have hafter := trans _ _ _ (hopcode p opcode instructions hread)
        (hentry { p with instructions })
      dsimp only
      rcases hrun : (executeEntry task (task.table.entry opcode)).run.run { p with instructions }
        with ⟨fault | ⟨⟩, q⟩
      · rw [hrun] at hafter
        exact trans _ _ _ hafter (hphase q _)
      · rw [hrun] at hafter
        exact hafter

/-- What a new cursor of the data keeps, a read of them keeps. -/
lemma keeps_readData {R : Progress → Progress → Prop} (h : ∀ p data, R p { p with data })
    {α : Type} (read : Cursor.Read α) : Keeps R (readData read) := by
  intro p
  show R p (readData read p).2
  unfold readData
  split
  · exact h p _
  · exact h p p.data

/-- What a new cursor of the instructions keeps, a read of them keeps. -/
lemma keeps_readInstructions {R : Progress → Progress → Prop}
    (h : ∀ p instructions, R p { p with instructions }) {α : Type} (read : Cursor.Read α) :
    Keeps R (readInstructions read) := by
  intro p
  show R p (readInstructions read p).2
  unfold readInstructions
  split
  · exact h p _
  · exact h p p.instructions

/-- What becomes of the address of a COPY, and of the COPY with it. -/
lemma copy_cases (task : Task) (mode n : Nat) (p : Progress) :
    (∃ address addresses, p.cache.decode (task.source.size + p.target.size) mode p.addresses
        = (.ok address, p.cache.insert address.val, addresses) ∧
      (copy task mode n).run.run p = (.ok (), { p with
        cache := p.cache.insert address.val, addresses
        target := Target.copy task.source p.target address n })) ∨
    ∃ fault addresses, p.cache.decode (task.source.size + p.target.size) mode p.addresses
        = (.error fault, p.cache, addresses) ∧
      (copy task mode n).run.run p = (.error fault, { p with addresses }) := by
  show (∃ address addresses, _ ∧ copy task mode n p = _) ∨
    ∃ fault addresses, _ ∧ copy task mode n p = _
  unfold copy
  dsimp only
  obtain ⟨address, addresses, hdecode⟩ | ⟨fault, addresses, hdecode⟩ :=
    p.cache.decode_cases (task.source.size + p.target.size) mode p.addresses
  · exact .inl ⟨address, addresses, hdecode, by rw [hdecode]⟩
  · exact .inr ⟨fault, addresses, hdecode, by rw [hdecode]⟩

/-! ### Properties of actions -/

/-- A property that actions have as soon as their parts have it, and that all the parts of an
instruction have. -/
structure Compositional (task : Task) (C : {α : Type} → Action α → Prop) : Prop where
  ofPure {α : Type} (a : α) : C (pure a : Action α)
  ofBind {α β : Type} {x : Action α} {f : α → Action β} (hx : C x) (hf : ∀ a, C (f a)) : C (x >>= f)
  readSize : C (readInstructions (Cursor.readVarint Varint.maxValue))
  readBytes (n : Nat) : C (readData (Cursor.readBytes n))
  readByte : C (readData Cursor.readByte)
  append (bytes : Bytes) : C (append bytes)
  fill (byte : UInt8) (n : Nat) : C (fill byte n)
  checkRoom (n : Nat) : C (checkRoom task n)
  copy (mode n : Nat) : C (copy task mode n)

section Compositional

variable {C : {α : Type} → Action α → Prop} (h : Compositional task C)
include h

lemma Compositional.execute (i : Instruction) : C (Replay.execute task i) := by
  have hsize : C (operandSize i) := by
    unfold operandSize
    split
    · exact h.readSize
    · exact h.ofPure _
  unfold Replay.execute
  split
  · exact h.ofPure ()
  · refine h.ofBind hsize fun size => h.ofBind (h.checkRoom size) fun _ => ?_
    split
    · exact h.ofPure ()
    · exact h.ofBind (h.readBytes size) h.append
    · exact h.ofBind h.readByte fun byte => h.fill byte size
    · exact h.copy _ size

lemma Compositional.executeEntry (entry : Entry) : C (Replay.executeEntry task entry) :=
  h.ofBind (h.execute _) fun _ => h.execute _

end Compositional

/-! ### The sizes of the address cache -/

def SameSizes (p q : Progress) : Prop :=
  q.cache.nearSize = p.cache.nearSize ∧ q.cache.sameSize = p.cache.sameSize

lemma SameSizes.refl (p : Progress) : SameSizes p p := ⟨rfl, rfl⟩

lemma SameSizes.trans (p q r : Progress) (h : SameSizes p q) (k : SameSizes q r) :
    SameSizes p r :=
  ⟨k.1.trans h.1, k.2.trans h.2⟩

/-- An address may enter the cache, but its sizes stay. -/
lemma keeps_sameSizes_copy (mode size : Nat) : Keeps SameSizes (copy task mode size) := by
  intro p
  obtain ⟨_, _, -, hcopy⟩ | ⟨_, _, -, hcopy⟩ := copy_cases task mode size p
  all_goals
    rw [hcopy]
    exact SameSizes.refl p

lemma keeps_sameSizes_execute (i : Instruction) : Keeps SameSizes (execute task i) :=
  keeps_execute task SameSizes.refl SameSizes.trans
    (keeps_readInstructions (fun p _ => SameSizes.refl p) _)
    (fun _ => keeps_readData (fun p _ => SameSizes.refl p) _)
    (keeps_readData (fun p _ => SameSizes.refl p) _) (fun _ => SameSizes.refl)
    (fun _ _ => SameSizes.refl) keeps_sameSizes_copy i

lemma sameSizes_step (p : Progress) : SameSizes p (step task p).2 :=
  keeps_step SameSizes.refl SameSizes.trans (fun p _ => SameSizes.refl p)
    (fun p _ _ _ => SameSizes.refl p) keeps_sameSizes_execute p

/-- A replay keeps the sizes of the address cache, whether it succeeds or not. -/
theorem sameSizes_run (task : Task) (p : Progress) : SameSizes p (run task p).2 :=
  run_induction SameSizes.trans sameSizes_step p

/-! ### The length of the target -/

lemma size_of_step (h : step task p = (.ok false, q)) : q.target.size = task.targetLength := by
  unfold step at h
  split at h
  · cases h
  · cases h
  · split at h
    · split at h
      · rename_i hverify
        cases h
        by_contra hne
        rw [verify, if_pos hne] at hverify
        cases hverify
      · cases h
    · split at h <;> cases h

/-- A replay that succeeds makes the target as long as the window declares. -/
lemma size_of_run {target : Array UInt8} (h : run task p = (.ok target, q)) :
    target.size = task.targetLength := by
  fun_induction run task p with
  | case1 p r hstep ih => exact ih h
  | case2 p r hstep =>
    cases h
    exact size_of_step hstep
  | case3 p fault r hstep => cases h

end Vcdiff.Replay
