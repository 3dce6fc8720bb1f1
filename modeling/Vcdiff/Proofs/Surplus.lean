import Vcdiff.Proofs.Replay
import Vcdiff.Proofs.Varint

/-!
Bytes behind the end. A replay that is given more bytes after its data and after its addresses does
what it did before: it reads the same numbers, writes the same target and stops at the same place
with the same kind of fault. Only a replay that was cut off may go on. Where the sections lie is of
no matter either, so the two replays may read theirs from different inputs.
-/

namespace Vcdiff

/-- What came of a computation, beside what came of it when there was more to read. A computation
that was cut off says nothing about the other. -/
inductive SameUnlessCutOff {α σ : Type} (R : σ → σ → Prop) :
    Except Fault α × σ → Except Fault α × σ → Prop where
  | cutOff {fault : Fault} {s : σ} {other : Except Fault α × σ} (h : fault.kind = .truncatedInput) :
      SameUnlessCutOff R (.error fault, s) other
  | fault {fault other : Fault} {s t : σ} (hkind : other.kind = fault.kind) (h : R s t) :
      SameUnlessCutOff R (.error fault, s) (.error other, t)
  | value {a : α} {s t : σ} (h : R s t) : SameUnlessCutOff R (.ok a, s) (.ok a, t)

namespace Cursor

variable {α β : Type} {x : Bytes} {c d : Cursor}

/-- The second cursor has the bytes of the first before it and then more. It may lie elsewhere, but
has come as far from its start. -/
structure Longer (more : Bytes) (c d : Cursor) : Prop where
  rest : d.rest = c.rest ++ more
  moved : d.position + c.start = c.position + d.start

lemma Longer.consumed (h : c.Longer x d) : d.consumed = c.consumed := by
  have := h.moved
  unfold Cursor.consumed
  omega

lemma longer_ofSection (label label' : String) (start start' : Nat) (bytes more : Bytes) :
    (ofSection label start bytes).Longer more (ofSection label' start' (bytes ++ more)) :=
  ⟨rfl, Nat.add_comm _ _⟩

/-- A read that leaves the cursor as it is when it fails. -/
def attempt (read : Read α) (c : Cursor) : Except Fault α × Cursor :=
  match read c with
  | .ok (a, c) => (.ok a, c)
  | .error fault => (.error fault, c)

/-- Surplus bytes change nothing about the read. -/
def Inert (read : Read α) : Prop :=
  ∀ (more : Bytes) (c d : Cursor), c.Longer more d →
    SameUnlessCutOff (Longer more) (c.attempt read) (d.attempt read)

/-! ### Reads -/

lemma attempt_bind (read : Read α) (f : α → Read β) (c : Cursor) :
    c.attempt (read >>= f) = match c.attempt read with
      | (.ok a, d) => match d.attempt (f a) with
        | (.ok b, e) => (.ok b, e)
        | (.error fault, _) => (.error fault, c)
      | (.error fault, _) => (.error fault, c) := by
  have hbind : (read >>= f) c = match read c with
      | .ok (a, d) => f a d
      | .error fault => .error fault := by
    show (read c >>= fun r => f r.1 r.2) = _
    rcases read c with _ | _ <;> rfl
  unfold attempt
  rw [hbind]
  rcases read c with fault | ⟨a, d⟩
  · rfl
  · dsimp only
    rcases f a d with fault | ⟨b, e⟩ <;> rfl

lemma inert_pure (a : α) : Inert (pure a : Read α) := fun _ _ _ h => .value h

lemma inert_bind {read : Read α} {f : α → Read β} (hread : Inert read) (hf : ∀ a, Inert (f a)) :
    Inert (read >>= f) := by
  intro more c d h
  rw [attempt_bind, attempt_bind]
  generalize hc : c.attempt read = r
  generalize hd : d.attempt read = s
  have hrs := hread more c d h
  rw [hc, hd] at hrs
  cases hrs with
  | cutOff hkind => exact .cutOff hkind
  | fault hkind _ => exact .fault hkind h
  | @value a c' d' h' =>
    dsimp only
    generalize hc' : c'.attempt (f a) = r
    generalize hd' : d'.attempt (f a) = s
    have hrs := hf a more c' d' h'
    rw [hc', hd'] at hrs
    cases hrs with
    | cutOff hkind => exact .cutOff hkind
    | fault hkind _ => exact .fault hkind h
    | value h => exact .value h

lemma inert_readByte : Inert readByte := by
  intro more c d h
  rcases hrest : c.rest with _ | ⟨b, rest⟩
  · have hc : readByte c = .error (c.exhausted 1) := by rw [readByte, hrest]
    rw [attempt, hc]
    exact .cutOff rfl
  · have hc : readByte c = .ok (b, { c with position := c.position + 1, rest }) := by
      rw [readByte, hrest]
    have hd : readByte d
        = .ok (b, { d with position := d.position + 1, rest := rest ++ more }) := by
      rw [readByte, h.rest, hrest]
      rfl
    rw [attempt, attempt, hc, hd]
    have := h.moved
    exact .value ⟨rfl, by dsimp only; omega⟩

lemma inert_readBytes (n : Nat) : Inert (readBytes n) := by
  intro more c d h
  by_cases hle : n ≤ c.rest.length
  · have hd : n ≤ d.rest.length := by
      rw [h.rest, List.length_append]
      omega
    rw [attempt, attempt, readBytes_of_le hle, readBytes_of_le hd, h.rest,
      List.take_append_of_le_length hle]
    have := h.moved
    exact .value ⟨List.drop_append_of_le_length hle, by dsimp only; omega⟩
  · rw [attempt, readBytes_of_lt (by omega)]
    exact .cutOff rfl

/-- The last byte of a number says that it is the last; a number that is too large is so whatever
follows. -/
lemma inert_readVarint (limit : Nat) : Inert (readVarint limit) := by
  intro more c d h
  rcases hscan : Varint.scan limit c.rest with ⟨n, size, rest⟩ | _ | _
  · obtain ⟨used, hused, -, -, htail⟩ := Varint.scan_local hscan
    have hc : readVarint limit c = .ok (n, { c with position := c.position + size, rest }) := by
      rw [readVarint, hscan]
    have hd : readVarint limit d
        = .ok (n, { d with position := d.position + size, rest := rest ++ more }) := by
      rw [readVarint, h.rest, hused, List.append_assoc, htail]
    rw [attempt, attempt, hc, hd]
    have := h.moved
    exact .value ⟨rfl, by dsimp only; omega⟩
  · have hc : readVarint limit c = .error (.varintTooLarge c.position limit) := by
      rw [readVarint, hscan]
    have hd : readVarint limit d = .error (.varintTooLarge d.position limit) := by
      rw [readVarint, h.rest, Varint.scan_tooLarge hscan]
    rw [attempt, attempt, hc, hd]
    exact .fault rfl h
  · have hc : readVarint limit c = .error (.varintCutOff c.label c.position) := by
      rw [readVarint, hscan]
    rw [attempt, hc]
    exact .cutOff rfl

end Cursor

namespace AddressCache

variable (c : AddressCache) {more : Bytes} {a b : Cursor}

lemma inert_read (here : Nat) (m : AddressMode c.nearSize c.sameSize) :
    Cursor.Inert (c.read here m) := by
  cases m with
  | self => exact Cursor.inert_bind (Cursor.inert_readVarint _) fun _ => Cursor.inert_pure _
  | here => exact Cursor.inert_bind (Cursor.inert_readVarint _) fun _ => Cursor.inert_pure _
  | near slot => exact Cursor.inert_bind (Cursor.inert_readVarint _) fun _ => Cursor.inert_pure _
  | same block => exact Cursor.inert_bind Cursor.inert_readByte fun _ => Cursor.inert_pure _

def AfterLonger (more : Bytes) (s t : AddressCache × Cursor) : Prop :=
  s.1 = t.1 ∧ s.2.Longer more t.2

lemma decode_of_longer (here mode : Nat) (h : a.Longer more b) :
    SameUnlessCutOff (AfterLonger more) (c.decode here mode a) (c.decode here mode b) := by
  unfold decode
  rcases AddressMode.ofNat? c.nearSize c.sameSize mode with _ | m
  · exact .fault rfl ⟨rfl, h⟩
  · dsimp only
    have hread := inert_read c here m more a b h
    unfold Cursor.attempt at hread
    rcases ha : c.read here m a with fault | ⟨number, a'⟩ <;>
      rcases hb : c.read here m b with other | ⟨number', b'⟩ <;>
      rw [ha, hb] at hread
    · cases hread with
      | cutOff hkind => exact .cutOff hkind
      | fault hkind _ => exact .fault hkind ⟨rfl, h⟩
    · cases hread with
      | cutOff hkind => exact .cutOff hkind
    · cases hread
    · cases hread with
      | value h' =>
        dsimp only
        split
        · exact .value ⟨rfl, h'⟩
        · exact .fault rfl ⟨rfl, h'⟩

end AddressCache

namespace Replay

variable {α β : Type} {task : Task} {x y : Bytes} {p q : Progress}

/-- The second replay has come as far as the first, and has more data and more addresses left. -/
structure Longer (x y : Bytes) (p q : Progress) : Prop where
  data : p.data.Longer x q.data
  instructions : p.instructions.Longer [] q.instructions
  addresses : p.addresses.Longer y q.addresses
  cache : q.cache = p.cache
  target : q.target = p.target
  phase : q.phase = p.phase

lemma longer_start {d d' i i' a a' : Cursor} (c : AddressCache) (hdata : d.Longer x d')
    (hinstructions : i.Longer [] i') (haddresses : a.Longer y a') :
    Longer x y (Progress.start d i a c) (Progress.start d' i' a' c) :=
  ⟨hdata, hinstructions, haddresses, rfl, rfl, rfl⟩

def Inert (x y : Bytes) (action : Action α) : Prop :=
  ∀ p q, Longer x y p q →
    SameUnlessCutOff (Longer x y) (action.run.run p) (action.run.run q)

/-! ### Actions -/

lemma inert_bind {action : Action α} {f : α → Action β} (haction : Inert x y action)
    (hf : ∀ a, Inert x y (f a)) : Inert x y (action >>= f) := by
  intro p q h
  rw [bind_apply, bind_apply]
  generalize hp : action.run.run p = r
  generalize hq : action.run.run q = s
  have hrs := haction p q h
  rw [hp, hq] at hrs
  cases hrs with
  | cutOff hkind => exact .cutOff hkind
  | fault hkind h => exact .fault hkind h
  | value h => exact hf _ _ _ h

lemma readData_eq (read : Cursor.Read α) (p : Progress) :
    (readData read).run.run p
      = ((p.data.attempt read).1, { p with data := (p.data.attempt read).2 }) := by
  show readData read p = _
  unfold readData Cursor.attempt
  rcases read p.data with fault | ⟨a, data⟩ <;> rfl

lemma readInstructions_eq (read : Cursor.Read α) (p : Progress) :
    (readInstructions read).run.run p = ((p.instructions.attempt read).1,
      { p with instructions := (p.instructions.attempt read).2 }) := by
  show readInstructions read p = _
  unfold readInstructions Cursor.attempt
  rcases read p.instructions with fault | ⟨a, instructions⟩ <;> rfl

lemma inert_readData {read : Cursor.Read α} (hread : Cursor.Inert read) :
    Inert x y (readData read) := by
  intro p q h
  rw [readData_eq, readData_eq]
  generalize hp : p.data.attempt read = r
  generalize hq : q.data.attempt read = s
  have hrs := hread x p.data q.data h.data
  rw [hp, hq] at hrs
  cases hrs with
  | cutOff hkind => exact .cutOff hkind
  | fault hkind hdata => exact .fault hkind { h with data := hdata }
  | value hdata => exact .value { h with data := hdata }

lemma inert_readInstructions {read : Cursor.Read α} (hread : Cursor.Inert read) :
    Inert x y (readInstructions read) := by
  intro p q h
  rw [readInstructions_eq, readInstructions_eq]
  generalize hp : p.instructions.attempt read = r
  generalize hq : q.instructions.attempt read = s
  have hrs := hread [] p.instructions q.instructions h.instructions
  rw [hp, hq] at hrs
  cases hrs with
  | cutOff hkind => exact .cutOff hkind
  | fault hkind hinstructions => exact .fault hkind { h with instructions := hinstructions }
  | value hinstructions => exact .value { h with instructions := hinstructions }

lemma inert_checkRoom (size : Nat) : Inert x y (checkRoom task size) := by
  intro p q h
  show SameUnlessCutOff _ (checkRoom task size p) (checkRoom task size q)
  unfold checkRoom
  rw [h.target]
  split
  · exact .fault rfl h
  · exact .value h

lemma inert_copy (mode size : Nat) : Inert x y (copy task mode size) := by
  intro p q h
  rcases p with ⟨data, instructions, addresses, cache, target, phase⟩
  rcases q with ⟨data', instructions', addresses', cache', target', phase'⟩
  obtain ⟨hdata, hinstructions, haddresses, rfl, rfl, rfl⟩ := h
  show SameUnlessCutOff _ (copy task mode size _) (copy task mode size _)
  unfold copy
  dsimp only
  generalize hp : cache'.decode (task.source.size + target'.size) mode addresses = r
  generalize hq : cache'.decode (task.source.size + target'.size) mode addresses' = s
  have hrs := AddressCache.decode_of_longer cache' (task.source.size + target'.size) mode haddresses
  rw [hp, hq] at hrs
  cases hrs with
  | cutOff hkind => exact .cutOff hkind
  | @fault _ _ s t hkind h =>
    obtain ⟨hcache, haddresses⟩ := h
    exact .fault hkind ⟨hdata, hinstructions, haddresses, hcache.symm, rfl, rfl⟩
  | @value _ s t h =>
    obtain ⟨hcache, haddresses⟩ := h
    exact .value ⟨hdata, hinstructions, haddresses, hcache.symm, rfl, rfl⟩

lemma compositional_inert (task : Task) (x y : Bytes) : Compositional task (Inert x y) where
  ofPure _ _ _ h := .value h
  ofBind := inert_bind
  readSize := inert_readInstructions (Cursor.inert_readVarint _)
  readBytes n := inert_readData (Cursor.inert_readBytes n)
  readByte := inert_readData Cursor.inert_readByte
  append bytes _ _ h := .value { h with target := by rw [h.target] }
  fill byte n _ _ h := .value { h with target := by rw [h.target] }
  checkRoom := inert_checkRoom
  copy := inert_copy

/-! ### The whole replay -/

lemma step_of_longer (task : Task) (h : Longer x y p q) :
    SameUnlessCutOff (Longer x y) (step task p) (step task q) := by
  rcases hphase : p.phase with _ | _ | _
  · have hphase' : q.phase = .running := h.phase.trans hphase
    rcases hrest : p.instructions.rest with _ | ⟨opcode, rest⟩
    · have hrest' : q.instructions.rest = [] := by rw [h.instructions.rest, hrest]; rfl
      rw [step_of_end hphase hrest, step_of_end hphase' hrest', h.target]
      -- the last check looks at the target alone, so data that is left over is not missed
      rcases verify task p.target with fault | ⟨⟩
      · exact .fault rfl { h with target := rfl, phase := rfl }
      · exact .value { h with target := rfl, phase := rfl }
    · have hrest' : q.instructions.rest = opcode :: rest := by
        rw [h.instructions.rest, List.append_nil, hrest]
      have hafter : Longer x y (afterOpcode p rest) (afterOpcode q rest) := by
        have := h.instructions.moved
        exact { h with instructions := ⟨(List.append_nil rest).symm, by
          simp only [afterOpcode]
          omega⟩ }
      rw [step_of_opcode hphase hrest, step_of_opcode hphase' hrest']
      generalize hp : (executeEntry task (task.table.entry opcode)).run.run (afterOpcode p rest) = r
      generalize hq : (executeEntry task (task.table.entry opcode)).run.run (afterOpcode q rest) = s
      have hrs := (compositional_inert task x y).executeEntry (task.table.entry opcode) _ _ hafter
      rw [hp, hq] at hrs
      cases hrs with
      | cutOff hkind => exact .cutOff hkind
      | fault hkind h => exact .fault hkind { h with phase := rfl }
      | value h => exact .value h
  · rw [step_of_done hphase, step_of_done (h.phase.trans hphase)]
    exact .fault rfl h
  · rw [step_of_faulted hphase, step_of_faulted (h.phase.trans hphase)]
    exact .fault rfl h

/-- The two replays stay beside each other until the first ends or is cut off. -/
lemma run_of_longer (task : Task) (h : Longer x y p q) :
    SameUnlessCutOff (Longer x y) (run task p) (run task q) := by
  fun_induction run task p generalizing q with
  | case1 p p' hp ih =>
    have hstep := step_of_longer task h
    rw [hp] at hstep
    generalize hq : step task q = s at hstep
    -- a step that meets no fault was not cut off, so the other replay takes the same one
    cases hstep with
    | value h =>
      rw [run_of_more hq]
      exact ih h
  | case2 p p' hp =>
    have hstep := step_of_longer task h
    rw [hp] at hstep
    generalize hq : step task q = s at hstep
    cases hstep with
    | value h =>
      rw [run_of_done hq, h.target]
      exact .value h
  | case3 p fault p' hp =>
    have hstep := step_of_longer task h
    rw [hp] at hstep
    generalize hq : step task q = s at hstep
    cases hstep with
    | cutOff hkind => exact .cutOff hkind
    | fault hkind h =>
      rw [run_of_fault hq]
      exact .fault hkind h

/-- **Surplus bytes.** Let the second replay have the same instructions as the first, and the same
data and addresses but more behind them. If the first is not cut off, they come to the same: the
same target is given or the same kind of fault, in the same phase, after as many bytes of each
section and with as much of the target written. -/
theorem run_append (task : Task) (cache : AddressCache)
    {data instructions addresses data' instructions' addresses' : Cursor}
    (hdata : data.Longer x data') (hinstructions : instructions.Longer [] instructions')
    (haddresses : addresses.Longer y addresses')
    (hcut : ∀ fault, (run task (.start data instructions addresses cache)).1 = .error fault →
      fault.kind ≠ .truncatedInput) :
    let r := run task (.start data instructions addresses cache)
    let s := run task (.start data' instructions' addresses' cache)
    s.1.mapError Fault.kind = r.1.mapError Fault.kind ∧ s.2.phase = r.2.phase ∧
      s.2.target = r.2.target ∧ s.2.data.consumed = r.2.data.consumed ∧
      s.2.instructions.consumed = r.2.instructions.consumed ∧
      s.2.addresses.consumed = r.2.addresses.consumed := by
  intro r s
  have hrs : SameUnlessCutOff (Longer x y) r s :=
    run_of_longer task (longer_start cache hdata hinstructions haddresses)
  have hcut : ∀ fault, r.1 = .error fault → fault.kind ≠ .truncatedInput := hcut
  clear_value r s
  have hafter (p q : Progress) (h : Longer x y p q) : q.phase = p.phase ∧ q.target = p.target ∧
      q.data.consumed = p.data.consumed ∧ q.instructions.consumed = p.instructions.consumed ∧
      q.addresses.consumed = p.addresses.consumed :=
    ⟨h.phase, h.target, h.data.consumed, h.instructions.consumed, h.addresses.consumed⟩
  cases hrs with
  | cutOff hkind => exact absurd hkind (hcut _ rfl)
  | fault hkind h => exact ⟨congrArg Except.error hkind, hafter _ _ h⟩
  | value h => exact ⟨rfl, hafter _ _ h⟩

/-- An opcode for an ADD of one byte and a COPY of four, whose address is too large: the fault
leaves one byte written, and an unfinished number behind the address is of no matter. -/
theorem run_append_addCopy :
    let r := run ⟨.default, #[], 5, none⟩ (.start (.ofSection "data" 6 [7])
      (.ofSection "instructions" 7 [163]) (.ofSection "addresses" 8 [9]) (.empty 4 3))
    let s := run ⟨.default, #[], 5, none⟩ (.start (.ofSection "data" 20 [7, 1, 2])
      (.ofSection "instructions" 23 [163]) (.ofSection "addresses" 24 [9, 0x80]) (.empty 4 3))
    r.1.mapError Fault.kind = .error .invalidAddress ∧ r.2.target = #[7] ∧
      s.1.mapError Fault.kind = .error .invalidAddress ∧ s.2.phase = .faulted ∧
      s.2.target = #[7] ∧ s.2.data.consumed = 1 ∧ s.2.addresses.consumed = 1 := by
  intro r s
  have hr : r.1.mapError Fault.kind = .error .invalidAddress ∧ r.2.phase = .faulted ∧
      r.2.target = #[7] ∧ r.2.data.consumed = 1 ∧ r.2.addresses.consumed = 1 := by
    decide +kernel
  obtain ⟨hkind, hphase, htarget, hdata, haddresses⟩ := hr
  have hcut (fault : Fault) (h : r.1 = .error fault) : fault.kind ≠ .truncatedInput := by
    intro hfault
    rw [h, Except.mapError, hfault] at hkind
    cases hkind
  have hs := run_append ⟨.default, #[], 5, none⟩ (.empty 4 3)
    (Cursor.longer_ofSection "data" "data" 6 20 [7] [1, 2])
    (Cursor.longer_ofSection "instructions" "instructions" 7 23 [163] [])
    (Cursor.longer_ofSection "addresses" "addresses" 8 24 [9] [0x80]) hcut
  obtain ⟨skind, sphase, starget, sdata, -, saddresses⟩ := hs
  exact ⟨hkind, htarget, skind.trans hkind, sphase.trans hphase, starget.trans htarget,
    sdata.trans hdata, saddresses.trans haddresses⟩

end Replay

end Vcdiff
