import Vcdiff.Proofs.CodeTable
import Vcdiff.Proofs.Faults
import Vcdiff.Proofs.Session

/-!
Slots of the address cache. Here each slot is looked up by its number, and what is out of range
breaks the decoding off. That never happens: the mode of a COPY bounds the slot that is read, and
the ring position and the residue of an address bound those that are written. And if the code table
has no mode that the cache does not have, an unknown mode never comes up either.
-/

namespace Vcdiff

def Fault.UnknownMode (fault : Fault) : Prop :=
  ∃ mode nearSize sameSize, fault = .unknownMode mode nearSize sameSize

lemma Fault.not_unknownMode {fault : Fault} (h : fault.kind ≠ .invalidAddress) :
    ¬ fault.UnknownMode := by
  rintro ⟨mode, nearSize, sameSize, rfl⟩
  exact h rfl

namespace AddressCache

variable {c : AddressCache} {nearSize sameSize here mode : Nat} {addresses : Cursor}

/-! ### Checked slots -/

/-- What `read` gives for a mode. There is nothing if the mode is for a slot that is not there. -/
def readChecked (c : AddressCache) (here mode : Nat) (addresses : Cursor) :
    Option (Except Fault (Int × Cursor)) :=
  if mode = AddressMode.selfCode then some (c.read here .self addresses)
  else if mode = AddressMode.hereCode then some (c.read here .here addresses)
  else if mode - 2 < c.nearSize then
    match c.near[mode - 2]? with
    | none => none
    | some base =>
      match Cursor.readVarint Varint.maxValue addresses with
      | .error fault => some (.error fault)
      | .ok (n, addresses) => some (.ok ((base + n : Nat), addresses))
  else if mode - 2 - c.nearSize < c.sameSize then
    match Cursor.readByte addresses with
    | .error fault => some (.error fault)
    | .ok (byte, addresses) =>
      match c.same[256 * (mode - 2 - c.nearSize) + byte.toNat]? with
      | none => none
      | some address => some (.ok ((address : Int), addresses))
  else some (.error (.unknownMode mode c.nearSize c.sameSize))

/-- The slots with one of them changed, if it is there. Where there are none, nothing is changed. -/
def setChecked {n : Nat} (slots : Vector Nat n) (slot address : Nat) : Option (Vector Nat n) :=
  if n = 0 then some slots
  else if h : slot < n then some (slots.set slot address)
  else none

def insertChecked (c : AddressCache) (address : Nat) : Option AddressCache := do
  let near ← setChecked c.near c.next address
  let same ← setChecked c.same (address % (256 * c.sameSize)) address
  some { c with near, same, next := c.following }

def decodeChecked (c : AddressCache) (here mode : Nat) (addresses : Cursor) :
    Option (Except Fault (Fin here) × AddressCache × Cursor) :=
  match c.readChecked here mode addresses with
  | none => none
  | some (.error fault) => some (.error fault, c, addresses)
  | some (.ok (number, addresses)) =>
    if number < 0 then some (.error (.addressOutside number here mode), c, addresses)
    else if h : number.toNat < here then
      match c.insertChecked number.toNat with
      | none => none
      | some c => some (.ok ⟨number.toNat, h⟩, c, addresses)
    else some (.error (.addressOutside number here mode), c, addresses)

example : (insertChecked { empty 4 3 with next := 4 } 0) = none := by decide

/-! ### A cache that fits -/

/-- The cache has so many slots, and the ring position is one of them if there are any. -/
structure Fits (nearSize sameSize : Nat) (c : AddressCache) : Prop where
  nearSize_eq : c.nearSize = nearSize
  sameSize_eq : c.sameSize = sameSize
  next_lt : nearSize ≠ 0 → c.next < nearSize

lemma fits_clear (c : AddressCache) : c.clear.Fits c.nearSize c.sameSize where
  nearSize_eq := rfl
  sameSize_eq := rfl
  next_lt := Nat.pos_of_ne_zero

/-- The ring position goes round. -/
lemma Fits.insert (h : c.Fits nearSize sameSize) (address : Nat) :
    (c.insert address).Fits nearSize sameSize where
  nearSize_eq := h.nearSize_eq
  sameSize_eq := h.sameSize_eq
  next_lt hne := by
    show c.following < nearSize
    rw [following, h.nearSize_eq, if_neg hne]
    exact Nat.mod_lt _ (Nat.pos_of_ne_zero hne)

lemma setChecked_eq {n slot : Nat} (h : n ≠ 0 → slot < n) (slots : Vector Nat n)
    (address : Nat) : setChecked slots slot address = some (slots.setIfInBounds slot address) := by
  unfold setChecked
  split
  · rename_i hzero
    subst hzero
    exact congrArg some (Vector.ext fun i hi => absurd hi (Nat.not_lt_zero i))
  · rename_i hne
    rw [dif_pos (h hne)]
    refine congrArg some (Vector.ext fun i hi => ?_)
    rw [Vector.getElem_set, Vector.getElem_setIfInBounds hi]

lemma Fits.insertChecked_eq (h : c.Fits nearSize sameSize) (address : Nat) :
    c.insertChecked address = some (c.insert address) := by
  have hnear : c.nearSize ≠ 0 → c.next < c.nearSize := by
    rw [h.nearSize_eq]
    exact h.next_lt
  have hsame : 256 * c.sameSize ≠ 0 → address % (256 * c.sameSize) < 256 * c.sameSize :=
    fun hne => Nat.mod_lt _ (Nat.pos_of_ne_zero hne)
  rw [insertChecked, setChecked_eq hnear, setChecked_eq hsame]
  rfl

/-- The slot that a mode is for is always there. -/
lemma readChecked_eq (c : AddressCache) (here mode : Nat) (addresses : Cursor) :
    c.readChecked here mode addresses
      = some (match AddressMode.ofNat? c.nearSize c.sameSize mode with
        | none => .error (.unknownMode mode c.nearSize c.sameSize)
        | some m => c.read here m addresses) := by
  unfold readChecked AddressMode.ofNat?
  split
  · rfl
  · split
    · rfl
    · split
      · rename_i hnear
        rw [Vector.getElem?_eq_getElem hnear]
        show _ = some (Except.bind (Cursor.readVarint Varint.maxValue addresses) _)
        rcases Cursor.readVarint Varint.maxValue addresses with fault | ⟨n, rest⟩ <;> rfl
      · split
        · rename_i hsame
          show _ = some (Except.bind (Cursor.readByte addresses) _)
          rcases Cursor.readByte addresses with fault | ⟨byte, rest⟩
          · rfl
          · -- a byte chooses among the 256 slots of its block
            have hbyte := byte.toNat_lt
            have hslot : 256 * (mode - 2 - c.nearSize) + byte.toNat < 256 * c.sameSize := by omega
            dsimp only
            rw [Vector.getElem?_eq_getElem hslot]
            rfl
        · rfl

lemma Fits.decodeChecked_eq (h : c.Fits nearSize sameSize) (here mode : Nat) (addresses : Cursor) :
    c.decodeChecked here mode addresses = some (c.decode here mode addresses) := by
  rw [decodeChecked, readChecked_eq, decode]
  rcases AddressMode.ofNat? c.nearSize c.sameSize mode with _ | m
  · rfl
  · dsimp only
    rcases c.read here m addresses with fault | ⟨number, rest⟩
    · rfl
    · dsimp only
      rw [h.insertChecked_eq]
      rcases Int.lt_or_le number 0 with hneg | hnonneg
      · rw [if_pos hneg, dif_neg (by omega)]
      · rw [if_neg (Int.not_lt.2 hnonneg)]
        by_cases hlt : number.toNat < here
        · rw [dif_pos hlt, dif_pos (by omega)]
        · rw [dif_neg hlt, dif_neg (by omega)]

/-- What comes of a mode that the cache has: the cache still fits, and the mode is known. -/
lemma Fits.decode (h : c.Fits nearSize sameSize) (hmode : mode < 2 + nearSize + sameSize)
    (here : Nat) (addresses : Cursor) :
    (c.decode here mode addresses).2.1.Fits nearSize sameSize ∧
      ∀ fault, (c.decode here mode addresses).1 = .error fault → ¬ fault.UnknownMode := by
  rcases hm : AddressMode.ofNat? c.nearSize c.sameSize mode with _ | m
  · -- a mode that is not known lies above all that the cache has
    have hle := AddressMode.ofNat?_eq_none_iff.1 hm
    rw [h.nearSize_eq, h.sameSize_eq] at hle
    omega
  · rcases hread : c.read here m addresses with found | ⟨number, rest⟩
    · simp only [AddressCache.decode, hm, hread]
      refine ⟨h, fun fault hfault => ?_⟩
      cases hfault
      exact Fault.not_unknownMode (raises_read c here m addresses found hread).2
    · simp only [AddressCache.decode, hm, hread]
      split
      · exact ⟨h.insert _, fun fault hfault => by cases hfault⟩
      · refine ⟨h, fun fault hfault => ?_⟩
        cases hfault
        rintro ⟨mode, nearSize, sameSize, hmode⟩
        cases hmode

end AddressCache

namespace Replay

variable {α β : Type} (task : Task) {nearSize sameSize : Nat} {p q : Progress}

/-! ### The checked replay -/

abbrev Checked (α : Type) := ExceptT Fault (StateT Progress Option) α

/-- An action that looks up no slot. -/
def Checked.ofAction (x : Action α) : Checked α := fun p => some (x.run.run p)

def copyChecked (mode size : Nat) : Checked Unit := fun p =>
  let here := task.source.size + p.target.size
  match p.cache.decodeChecked here mode p.addresses with
  | none => none
  | some (.ok address, cache, addresses) =>
    some (.ok (),
      { p with cache, addresses, target := Target.copy task.source p.target address size })
  | some (.error fault, cache, addresses) => some (.error fault, { p with cache, addresses })

def executeChecked (i : Instruction) : Checked Unit :=
  if i.kind = .noop then pure ()
  else do
    let size ← Checked.ofAction (operandSize i)
    Checked.ofAction (checkRoom task size)
    match i.kind with
    | .noop => pure ()
    | .add => Checked.ofAction (append (← Checked.ofAction (readData (Cursor.readBytes size))))
    | .run => Checked.ofAction (fill (← Checked.ofAction (readData Cursor.readByte)) size)
    | .copy => copyChecked task i.mode.toNat size

def executeEntryChecked (entry : Entry) : Checked Unit := do
  executeChecked task entry.1
  executeChecked task entry.2

/-- Slots are looked up only for an opcode. -/
def stepChecked (p : Progress) : Option (Except Fault Bool × Progress) :=
  match p.phase, p.instructions.rest with
  | .running, opcode :: rest =>
    match (executeEntryChecked task (task.table.entry opcode)).run.run (afterOpcode p rest) with
    | none => none
    | some (.ok (), q) => some (.ok true, q)
    | some (.error fault, q) => some (.error fault, { q with phase := .faulted })
  | _, _ => some (step task p)

def runChecked : Nat → Progress → Option (Except Fault (Array UInt8) × Progress)
  | 0, _ => none
  | steps + 1, p =>
    match stepChecked task p with
    | none => none
    | some (.ok true, q) => runChecked steps q
    | some (.ok false, q) => some (.ok q.target, q)
    | some (.error fault, q) => some (.error fault, q)

/-! ### Nothing breaks off -/

def Fitting (nearSize sameSize : Nat) : Except Fault α × Progress → Prop
  | (.ok _, q) => q.cache.Fits nearSize sameSize
  | (.error fault, q) => q.cache.Fits nearSize sameSize ∧ ¬ fault.UnknownMode

def Guards (nearSize sameSize : Nat) (checked : Checked α) (action : Action α) : Prop :=
  ∀ p, p.cache.Fits nearSize sameSize →
    checked.run.run p = some (action.run.run p) ∧ Fitting nearSize sameSize (action.run.run p)

lemma Checked.bind_apply (x : Checked α) (f : α → Checked β) (p : Progress) :
    (x >>= f).run.run p = match x.run.run p with
      | none => none
      | some (.ok a, q) => (f a).run.run q
      | some (.error fault, q) => some (.error fault, q) := by
  show Option.bind (x p) (fun r => (ExceptT.bindCont f r.1) r.2) = match x p with
    | none => none
    | some (.ok a, q) => (f a).run.run q
    | some (.error fault, q) => some (.error fault, q)
  rcases x p with _ | ⟨_ | _, q⟩ <;> rfl

variable {task}

lemma guards_bind {checked : Checked α} {action : Action α} {f : α → Checked β}
    {g : α → Action β} (h : Guards nearSize sameSize checked action)
    (hf : ∀ a, Guards nearSize sameSize (f a) (g a)) :
    Guards nearSize sameSize (checked >>= f) (action >>= g) := by
  intro p hp
  obtain ⟨hrun, hfitting⟩ := h p hp
  rw [Checked.bind_apply, bind_apply, hrun]
  rcases haction : action.run.run p with ⟨fault | a, q⟩
  · rw [haction] at hfitting
    exact ⟨rfl, hfitting⟩
  · rw [haction] at hfitting
    exact hf a q hfitting

lemma guards_ofAction {action : Action α}
    (h : ∀ p : Progress, p.cache.Fits nearSize sameSize →
      Fitting nearSize sameSize (action.run.run p)) :
    Guards nearSize sameSize (.ofAction action) action := fun p hp => ⟨rfl, h p hp⟩

lemma guards_pure (a : α) : Guards nearSize sameSize (pure a) (pure a) :=
  guards_ofAction fun _ hp => hp

lemma guards_readData {read : Cursor.Read α} (h : Cursor.Raises Fault.OfFormat read) :
    Guards nearSize sameSize (.ofAction (readData read)) (readData read) := by
  refine guards_ofAction fun p hp => ?_
  show Fitting _ _ (readData read p)
  unfold readData
  rcases hread : read p.data with fault | ⟨a, data⟩
  · exact ⟨hp, Fault.not_unknownMode (h _ _ hread).2⟩
  · exact hp

lemma guards_operandSize (i : Instruction) :
    Guards nearSize sameSize (.ofAction (operandSize i)) (operandSize i) := by
  refine guards_ofAction fun p hp => ?_
  unfold operandSize
  split
  · show Fitting _ _ (readInstructions _ p)
    unfold readInstructions
    rcases hread : Cursor.readVarint Varint.maxValue p.instructions with fault | ⟨n, instructions⟩
    · exact ⟨hp, Fault.not_unknownMode (Cursor.raises_readVarint _ _ _ hread).2⟩
    · exact hp
  · exact hp

lemma guards_checkRoom (size : Nat) :
    Guards nearSize sameSize (.ofAction (checkRoom task size)) (checkRoom task size) := by
  refine guards_ofAction fun p hp => ?_
  show Fitting _ _ (checkRoom task size p)
  unfold checkRoom
  split
  · exact ⟨hp, Fault.not_unknownMode (by simp [Fault.kind])⟩
  · exact hp

lemma guards_copy {mode : Nat} (hmode : mode < 2 + nearSize + sameSize) (size : Nat) :
    Guards nearSize sameSize (copyChecked task mode size) (copy task mode size) := by
  intro p hp
  have hdecode := hp.decode hmode (task.source.size + p.target.size) p.addresses
  show copyChecked task mode size p = some (copy task mode size p) ∧
    Fitting _ _ (copy task mode size p)
  unfold copyChecked copy
  dsimp only
  rw [hp.decodeChecked_eq]
  rcases hd : p.cache.decode (task.source.size + p.target.size) mode p.addresses with
    ⟨fault | address, cache, addresses⟩
  · rw [hd] at hdecode
    exact ⟨rfl, hdecode.1, hdecode.2 fault rfl⟩
  · rw [hd] at hdecode
    exact ⟨rfl, hdecode.1⟩

/-- An instruction looks up a slot only for its mode, if it is a COPY. -/
lemma guards_execute {i : Instruction}
    (hmode : i.kind = .copy → i.mode.toNat < 2 + nearSize + sameSize) :
    Guards nearSize sameSize (executeChecked task i) (execute task i) := by
  unfold executeChecked execute
  split
  · exact guards_pure ()
  · refine guards_bind (guards_operandSize i) fun size =>
      guards_bind (guards_checkRoom size) fun _ => ?_
    rcases hkind : i.kind with _ | _ | _ | _
    · exact guards_pure ()
    · exact guards_bind (guards_readData (Cursor.raises_readBytes size)) fun bytes =>
        guards_ofAction fun _ hp => hp
    · exact guards_bind (guards_readData Cursor.raises_readByte) fun byte =>
        guards_ofAction fun _ hp => hp
    · exact guards_copy (hmode hkind) size

lemma guards_executeEntry (hmodes : task.table.UsesModes (2 + nearSize + sameSize))
    (opcode : UInt8) :
    Guards nearSize sameSize (executeEntryChecked task (task.table.entry opcode))
      (executeEntry task (task.table.entry opcode)) := by
  have hentry : task.table.entry opcode ∈ task.table.entries.toList :=
    Vector.mem_toList_iff.2 (Vector.getElem_mem _)
  exact guards_bind (guards_execute (hmodes _ hentry 0)) fun _ =>
    guards_execute (hmodes _ hentry 1)

lemma stepChecked_of_end (hphase : p.phase ≠ .running ∨ p.instructions.rest = []) :
    stepChecked task p = some (step task p) := by
  unfold stepChecked
  split
  · rename_i hrunning hrest
    rcases hphase with h | h
    · exact absurd hrunning h
    · rw [hrest] at h
      cases h
  · rfl

lemma stepChecked_of_opcode {opcode : UInt8} {rest : Bytes} (hphase : p.phase = .running)
    (h : p.instructions.rest = opcode :: rest) :
    stepChecked task p =
      match (executeEntryChecked task (task.table.entry opcode)).run.run (afterOpcode p rest) with
      | none => none
      | some (.ok (), q) => some (.ok true, q)
      | some (.error fault, q) => some (.error fault, { q with phase := .faulted }) := by
  simp only [stepChecked, hphase, h]

lemma fitting_verify (hp : p.cache.Fits nearSize sameSize) :
    Fitting nearSize sameSize (match verify task p.target with
      | .ok () => ((.ok false : Except Fault Bool), { p with phase := .done })
      | .error fault => (.error fault, { p with phase := .faulted })) := by
  rcases hverify : verify task p.target with fault | ⟨⟩
  · exact ⟨hp, Fault.not_unknownMode (ofFormat_of_verify hverify).2⟩
  · exact hp

lemma stepChecked_eq (hmodes : task.table.UsesModes (2 + nearSize + sameSize))
    (hp : p.cache.Fits nearSize sameSize) :
    stepChecked task p = some (step task p) ∧ Fitting nearSize sameSize (step task p) := by
  rcases hphase : p.phase with _ | _ | _
  · rcases hrest : p.instructions.rest with _ | ⟨opcode, rest⟩
    · refine ⟨stepChecked_of_end (.inr hrest), ?_⟩
      rw [step_of_end hphase hrest]
      exact fitting_verify hp
    · obtain ⟨hrun, hfitting⟩ := guards_executeEntry hmodes opcode (afterOpcode p rest) hp
      rw [stepChecked_of_opcode hphase hrest, step_of_opcode hphase hrest, hrun]
      rcases hentry : (executeEntry task (task.table.entry opcode)).run.run (afterOpcode p rest)
        with ⟨fault | ⟨⟩, q⟩
      · rw [hentry] at hfitting
        exact ⟨rfl, hfitting⟩
      · rw [hentry] at hfitting
        exact ⟨rfl, hfitting⟩
  · refine ⟨stepChecked_of_end (.inl (by simp [hphase])), ?_⟩
    rw [step_of_done hphase]
    exact ⟨hp, Fault.not_unknownMode (by simp [Fault.kind])⟩
  · refine ⟨stepChecked_of_end (.inl (by simp [hphase])), ?_⟩
    rw [step_of_faulted hphase]
    exact ⟨hp, Fault.not_unknownMode (by simp [Fault.kind])⟩

/-- **Slots.** No replay looks up a slot that is not there, whatever its sections say. -/
theorem runChecked_eq (hmodes : task.table.UsesModes (2 + nearSize + sameSize))
    (hp : p.cache.Fits nearSize sameSize) {steps : Nat}
    (hsteps : p.instructions.rest.length < steps) :
    runChecked task steps p = some (run task p) ∧ Fitting nearSize sameSize (run task p) := by
  induction steps generalizing p with
  | zero => omega
  | succ steps ih =>
    obtain ⟨hchecked, hfitting⟩ := stepChecked_eq hmodes hp
    rw [runChecked, hchecked]
    rcases hstep : step task p with ⟨fault | more, q⟩
    · rw [hstep] at hfitting
      rw [run_of_fault hstep]
      exact ⟨rfl, hfitting⟩
    · rw [hstep] at hfitting
      cases more with
      | false =>
        rw [run_of_done hstep]
        exact ⟨rfl, hfitting⟩
      | true =>
        have hlt := step_shortens task hstep
        rw [run_of_more hstep]
        exact ih hfitting (by omega)

end Replay

end Vcdiff
