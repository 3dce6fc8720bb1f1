import Vcdiff.Proofs.Commands

/-!
Which windows a replay accepts, and what it makes of them. A replay mixes the commands of the
instructions section with the bytes and the addresses that they take; here it is followed beside a
ledger, one command at a time, and so it accepts just the windows that `Task.Accepts` describes.
-/

namespace Vcdiff

/-! ### What a read gives -/

namespace Cursor

variable {α β : Type} {read : Read α} {c : Cursor} {given : Option (α × Nat)}

/-- At this cursor the read gives the value and takes so many bytes, or has nothing to give. -/
def Gives (read : Read α) (c : Cursor) : Option (α × Nat) → Prop
  | some (a, k) => read c = .ok (a, c.advance k)
  | none => ∃ fault, read c = .error fault

lemma Gives.map (h : Gives read c given) (f : α → β) :
    Gives (do return f (← read)) c (given.map fun (a, k) => (f a, k)) := by
  rcases given with _ | ⟨a, k⟩
  · obtain ⟨fault, hread⟩ := h
    refine ⟨fault, ?_⟩
    show Except.bind (read c) _ = _
    rw [hread]
    rfl
  · have hread : read c = .ok (a, c.advance k) := h
    show Except.bind (read c) _ = _
    rw [hread]
    rfl

lemma gives_readByte (c : Cursor) : Gives readByte c (c.rest.head?.map fun byte => (byte, 1)) := by
  rcases h : c.rest with _ | ⟨byte, rest⟩
  · refine ⟨c.exhausted 1, ?_⟩
    rw [readByte, h]
  · show readByte c = .ok (byte, c.advance 1)
    simp [readByte, h, advance]

lemma gives_readVarint (c : Cursor) :
    Gives (readVarint Varint.maxValue) c (Varint.read? c.rest) := by
  rcases h : Varint.scan Varint.maxValue c.rest with ⟨n, k, rest⟩ | _ | _
  · obtain ⟨used, hrest, -, hsize, -⟩ := Varint.scan_local h
    have hdrop : c.rest.drop k = rest := by simp [hrest, hsize]
    rw [Varint.read?, h]
    show readVarint Varint.maxValue c = .ok (n, c.advance k)
    rw [readVarint, h, advance, hdrop]
  · rw [Varint.read?, h]
    refine ⟨.varintTooLarge c.position Varint.maxValue, ?_⟩
    rw [readVarint, h]
  · rw [Varint.read?, h]
    refine ⟨.varintCutOff c.label c.position, ?_⟩
    rw [readVarint, h]

end Cursor

namespace AddressCache

variable {c : AddressCache} {history : History} {here mode : Nat} {addresses : Cursor}

/-- A cache that mirrors the history reads what the history says. -/
lemma gives_read (hmirrors : c.Mirrors history) (here : Nat)
    (m : AddressMode c.nearSize c.sameSize) (addresses : Cursor) :
    Cursor.Gives (c.read here m) addresses
      (history.read? c.nearSize c.sameSize here addresses.rest m) := by
  cases m with
  | self => exact (Cursor.gives_readVarint addresses).map _
  | here => exact (Cursor.gives_readVarint addresses).map _
  | near slot =>
    rw [History.read?, ← hmirrors.near slot]
    exact (Cursor.gives_readVarint addresses).map fun n => ((c.near.get slot + n : Nat) : Int)
  | same block =>
    have hread : c.read here (.same block) = do
        return ((history.same c.sameSize (256 * block + (← Cursor.readByte).toNat) : Nat) : Int) := by
      rw [read]
      congr
      funext byte
      dsimp only
      rw [hmirrors.same]
    rw [hread, History.read?]
    simpa [Function.comp_def] using (Cursor.gives_readByte addresses).map fun byte =>
      ((history.same c.sameSize (256 * block + byte.toNat) : Nat) : Int)

/-- An address that the history has for the bytes is decoded, and taken into the cache. -/
lemma decode_of_address? {address k : Nat} (hmirrors : c.Mirrors history)
    (h : history.address? c.nearSize c.sameSize here mode addresses.rest = some (address, k)) :
    ∃ hlt : address < here, c.decode here mode addresses
      = (.ok ⟨address, hlt⟩, c.insert address, addresses.advance k) := by
  simp only [History.address?, Option.bind_eq_bind, Option.bind_eq_some_iff] at h
  obtain ⟨m, hmode, ⟨number, _⟩, hnumber, h⟩ := h
  have hread := gives_read hmirrors here m addresses
  rw [hnumber] at hread
  have hread : c.read here m addresses = .ok (number, _) := hread
  split at h
  · rename_i hinside
    cases h
    refine ⟨by omega, ?_⟩
    rw [decode, hmode]
    dsimp only
    rw [hread]
    exact dif_pos hinside
  · cases h

lemma decode_of_address?_none (hmirrors : c.Mirrors history)
    (h : history.address? c.nearSize c.sameSize here mode addresses.rest = none) :
    ∃ fault, (c.decode here mode addresses).1 = .error fault := by
  rcases hmode : AddressMode.ofNat? c.nearSize c.sameSize mode with _ | m
  · refine ⟨.unknownMode mode c.nearSize c.sameSize, ?_⟩
    rw [decode, hmode]
  · have hread := gives_read hmirrors here m addresses
    rcases hnumber : history.read? c.nearSize c.sameSize here addresses.rest m with _ | ⟨number, k⟩
    · rw [hnumber] at hread
      obtain ⟨fault, hread⟩ := hread
      refine ⟨fault, ?_⟩
      rw [decode, hmode]
      dsimp only
      rw [hread]
    · rw [hnumber] at hread
      have hread : c.read here m addresses = .ok (number, addresses.advance k) := hread
      have houtside : ¬ (0 ≤ number ∧ number < here) := by
        intro hinside
        simp [History.address?, hmode, hnumber, hinside] at h
      refine ⟨.addressOutside number here mode, ?_⟩
      rw [decode, hmode]
      dsimp only
      rw [hread]
      dsimp only
      rw [dif_neg houtside]

end AddressCache

namespace Replay

variable {task : Task} {nearSize sameSize : Nat} {p q : Progress} {l : Ledger}
  {instructions : Cursor}

/-- The replay has come as far as the ledger, and its instructions as far as the cursor. -/
structure Shows (nearSize sameSize : Nat) (p : Progress) (instructions : Cursor)
    (l : Ledger) : Prop where
  data : p.data = l.data
  instructions : p.instructions = instructions
  addresses : p.addresses = l.addresses
  nearSize : p.cache.nearSize = nearSize
  sameSize : p.cache.sameSize = sameSize
  mirrors : p.cache.Mirrors l.history
  target : p.target.toList = l.target
  phase : p.phase = .running

lemma Shows.size_target (h : Shows nearSize sameSize p instructions l) :
    p.target.size = l.target.length := by
  rw [← h.target, Array.length_toList]

/-- Carries out the commands that are spelled at the cursor, and takes the bytes that spell them. -/
def obey (task : Task) (nearSize sameSize : Nat) (spelled : Bytes → Option (List Command × Nat))
    (instructions : Cursor) (l : Ledger) : Option (Cursor × Ledger) :=
  (spelled instructions.rest).bind fun (commands, k) =>
    (commands.foldlM (Ledger.perform task nearSize sameSize) l).map (instructions.advance k, ·)

/-- The outcome of an action is what the ledger comes to, and a fault if it comes to nothing. -/
def Yields (nearSize sameSize : Nat) :
    Except Fault Unit × Progress → Option (Cursor × Ledger) → Prop
  | (.ok (), q), some (instructions, l) => Shows nearSize sameSize q instructions l
  | (.error _, _), none => True
  | _, _ => False

lemma yields_append (h : Shows nearSize sameSize p instructions l) (n : Nat) :
    Yields nearSize sameSize
      ((do append (← readData (Cursor.readBytes n)) : Action Unit).run.run p)
      ((l.serve task nearSize sameSize (.add n)).map (instructions, ·)) := by
  by_cases hn : n ≤ l.data.rest.length
  · have hread : Cursor.readBytes n p.data = .ok (l.data.rest.take n, l.data.advance n) := by
      rw [h.data]
      exact Cursor.readBytes_of_le hn
    rw [bind_apply, readData_of_ok hread, Ledger.serve, if_pos hn]
    exact ⟨rfl, h.instructions, h.addresses, h.nearSize, h.sameSize, h.mirrors,
      by simp [h.target], h.phase⟩
  · have hread : Cursor.readBytes n p.data = .error (p.data.exhausted n) := by
      rw [h.data]
      exact Cursor.readBytes_of_lt (by omega)
    rw [bind_apply, readData_of_error hread, Ledger.serve, if_neg hn]
    trivial

lemma yields_fill (h : Shows nearSize sameSize p instructions l) (n : Nat) :
    Yields nearSize sameSize
      ((do fill (← readData Cursor.readByte) n : Action Unit).run.run p)
      ((l.serve task nearSize sameSize (.run n)).map (instructions, ·)) := by
  rcases hrest : l.data.rest with _ | ⟨byte, rest⟩
  · have hread : Cursor.readByte p.data = .error (p.data.exhausted 1) := by
      rw [Cursor.readByte, h.data, hrest]
    rw [bind_apply, readData_of_error hread, Ledger.serve, hrest]
    trivial
  · have hread : Cursor.readByte p.data = .ok (byte, l.data.advance 1) := by
      rw [h.data, Cursor.readByte_of_cons hrest, Cursor.advance, hrest]
      rfl
    rw [bind_apply, readData_of_ok hread, Ledger.serve, hrest]
    exact ⟨rfl, h.instructions, h.addresses, h.nearSize, h.sameSize, h.mirrors,
      by simp [Target.fill_eq_append, h.target], h.phase⟩

lemma yields_copy (h : Shows nearSize sameSize p instructions l) (mode n : Nat) :
    Yields nearSize sameSize ((copy task mode n).run.run p)
      ((l.serve task nearSize sameSize (.copy mode n)).map (instructions, ·)) := by
  have hsize := h.size_target
  obtain ⟨hdata, hinstructions, haddresses, rfl, rfl, hmirrors, htarget, hphase⟩ := h
  rcases haddress : l.history.address? p.cache.nearSize p.cache.sameSize
    (task.source.size + l.target.length) mode l.addresses.rest with _ | ⟨address, k⟩
  · rw [Ledger.serve, haddress]
    rw [← haddresses, ← hsize] at haddress
    obtain ⟨fault, hdecode⟩ := AddressCache.decode_of_address?_none hmirrors haddress
    show Yields _ _ (copy task mode n p) none
    rw [copy]
    split <;> simp_all [Yields]
  · rw [Ledger.serve, haddress]
    rw [← haddresses, ← hsize] at haddress
    obtain ⟨hlt, hdecode⟩ := AddressCache.decode_of_address? hmirrors haddress
    rw [copy_of_decode hdecode]
    refine ⟨hdata, hinstructions, congrArg (Cursor.advance · k) haddresses, rfl, rfl,
      hmirrors.insert address, ?_, hphase⟩
    rw [Target.toList_copy, htarget]

/-! ### One instruction -/

lemma gives_operandSize (h : Shows nearSize sameSize p instructions l) (i : Instruction) :
    match Command.size? i instructions.rest with
    | some (n, k) =>
      (operandSize i).run.run p = (.ok n, { p with instructions := instructions.advance k })
    | none => ∃ fault, (operandSize i).run.run p = (.error fault, p) := by
  obtain ⟨-, rfl, -⟩ := h
  by_cases hzero : i.size = 0
  · have hread := Cursor.gives_readVarint p.instructions
    rw [Command.size?, if_pos hzero, operandSize, if_pos hzero]
    rcases hnumber : Varint.read? p.instructions.rest with _ | ⟨n, k⟩
    · rw [hnumber] at hread
      obtain ⟨fault, hread⟩ := hread
      refine ⟨fault, ?_⟩
      show readInstructions _ p = _
      rw [readInstructions, hread]
    · rw [hnumber] at hread
      have hread : Cursor.readVarint Varint.maxValue p.instructions = .ok (n, _) := hread
      show readInstructions _ p = _
      rw [readInstructions, hread]
  · rw [Command.size?, if_neg hzero, operandSize, if_neg hzero]
    rfl

/-- An instruction that asks for one command does what the command does. -/
lemma yields_of_serve {i : Instruction} {body : Nat → Action Unit} {command : Nat → Command}
    (h : Shows nearSize sameSize p instructions l)
    (hexecute : execute task i = do
      let n ← operandSize i
      checkRoom task n
      body n)
    (hhalf : Command.half? i instructions.rest
      = (Command.size? i instructions.rest).map fun (n, k) => ([command n], k))
    (hcommand : ∀ n, (command n).size = n)
    (hbody : ∀ n q instructions, Shows nearSize sameSize q instructions l →
      Yields nearSize sameSize ((body n).run.run q)
        ((l.serve task nearSize sameSize (command n)).map (instructions, ·))) :
    Yields nearSize sameSize ((execute task i).run.run p)
      (obey task nearSize sameSize (Command.half? i) instructions l) := by
  have hoperand := gives_operandSize h i
  rw [hexecute, obey, hhalf, bind_apply]
  rcases hsize : Command.size? i instructions.rest with _ | ⟨n, k⟩
  · rw [hsize] at hoperand
    obtain ⟨fault, hoperand⟩ := hoperand
    rw [hoperand]
    trivial
  · rw [hsize] at hoperand
    have hoperand : (operandSize i).run.run p = (.ok n, _) := hoperand
    have hshows : Shows nearSize sameSize { p with instructions := instructions.advance k }
        (instructions.advance k) l :=
      ⟨h.data, rfl, h.addresses, h.nearSize, h.sameSize, h.mirrors, h.target, h.phase⟩
    have hperform : ([command n].foldlM (Ledger.perform task nearSize sameSize) l)
        = l.perform task nearSize sameSize (command n) := by
      simp
    rw [hoperand]
    dsimp only [Option.map_some, Option.bind_some]
    rw [bind_apply, hperform, Ledger.perform, hcommand]
    by_cases hroom : n ≤ task.targetLength - l.target.length
    · rw [if_pos hroom, checkRoom_of_le (by rw [hshows.size_target]; omega)]
      exact hbody n _ _ hshows
    · rw [if_neg hroom, checkRoom_of_lt (by rw [hshows.size_target]; omega)]
      trivial

theorem yields_execute (task : Task) (h : Shows nearSize sameSize p instructions l)
    (i : Instruction) :
    Yields nearSize sameSize ((execute task i).run.run p)
      (obey task nearSize sameSize (Command.half? i) instructions l) := by
  rcases i with ⟨_ | _ | _ | _, size, mode⟩
  · rw [execute_of_noop rfl]
    exact h
  · exact yields_of_serve h rfl rfl (fun n => rfl) fun n q instructions h => yields_append h n
  · exact yields_of_serve h rfl rfl (fun n => rfl) fun n q instructions h => yields_fill h n
  · exact yields_of_serve h rfl rfl (fun n => rfl) fun n q instructions h =>
      yields_copy h mode.toNat n

/-! ### One opcode -/

/-- The commands of an entry are those of its halves, one half after the other. -/
lemma obey_entry (e : Entry) (instructions : Cursor) (l : Ledger) :
    obey task nearSize sameSize (Command.entry? e) instructions l
      = (obey task nearSize sameSize (Command.half? e.1) instructions l).bind fun (i, m) =>
          obey task nearSize sameSize (Command.half? e.2) i m := by
  unfold obey Command.entry?
  rcases Command.half? e.1 instructions.rest with _ | ⟨first, k⟩
  · rfl
  · rcases hsecond : Command.half? e.2 (instructions.rest.drop k) with _ | ⟨second, j⟩
    · rcases hfirst : first.foldlM (Ledger.perform task nearSize sameSize) l with _ | m
      · simp [hsecond, hfirst]
      · simp [hsecond, hfirst]
    · rcases hfirst : first.foldlM (Ledger.perform task nearSize sameSize) l with _ | m
      · simp [hsecond, hfirst, List.foldlM_append]
      · simp [hsecond, hfirst, List.foldlM_append]

theorem yields_executeEntry (task : Task) (h : Shows nearSize sameSize p instructions l)
    (e : Entry) :
    Yields nearSize sameSize ((executeEntry task e).run.run p)
      (obey task nearSize sameSize (Command.entry? e) instructions l) := by
  have hfirst := yields_execute task h e.1
  rw [executeEntry, bind_apply, obey_entry]
  rcases hrun : (execute task e.1).run.run p with ⟨_ | ⟨⟩, q⟩ <;>
    rcases hobey : obey task nearSize sameSize (Command.half? e.1) instructions l with _ | ⟨i, m⟩ <;>
    rw [hrun, hobey] at hfirst
  · trivial
  · exact hfirst.elim
  · exact hfirst.elim
  · exact yields_execute task hfirst e.2

/-- An opcode is executed as its entry says, or the replay is over. -/
lemma step_of_shows (task : Task) {opcode : UInt8} {rest : Bytes}
    (h : Shows nearSize sameSize p instructions l) (hrest : instructions.rest = opcode :: rest) :
    match obey task nearSize sameSize (Command.entry? (task.table.entry opcode))
        (instructions.advance 1) l with
    | some (i, m) => ∃ q, step task p = (.ok true, q) ∧ Shows nearSize sameSize q i m
    | none => ∃ fault q, step task p = (.error fault, q) := by
  have hopcode : p.instructions.rest = opcode :: rest := by rw [h.instructions, hrest]
  have hafter : Shows nearSize sameSize (afterOpcode p rest) (instructions.advance 1) l := by
    refine ⟨h.data, ?_, h.addresses, h.nearSize, h.sameSize, h.mirrors, h.target, h.phase⟩
    rw [← h.instructions, Cursor.advance, hopcode]
    rfl
  have hentry := yields_executeEntry task hafter (task.table.entry opcode)
  rw [step_of_opcode h.phase hopcode]
  rcases hrun : (executeEntry task (task.table.entry opcode)).run.run (afterOpcode p rest) with
      ⟨_ | ⟨⟩, q⟩ <;>
    rcases hobey : obey task nearSize sameSize (Command.entry? (task.table.entry opcode))
      (instructions.advance 1) l with _ | ⟨i, m⟩ <;>
    rw [hrun, hobey] at hentry
  · exact ⟨_, _, rfl⟩
  · exact hentry.elim
  · exact hentry.elim
  · exact ⟨q, rfl, hentry⟩

/-! ### The whole replay -/

/-- With the instructions used up, the replay ends well if its target is what is declared. -/
lemma run_iff_of_end {target : Array UInt8} {data addresses : Cursor}
    (h : Shows nearSize sameSize p instructions l) (hrest : instructions.rest = []) :
    (∃ q, run task p = (.ok target, q) ∧ q.data = data ∧ q.addresses = addresses) ↔
      verify task target = .ok () ∧
        l.target = target.toList ∧ l.data = data ∧ l.addresses = addresses := by
  have hend : p.instructions.rest = [] := by rw [h.instructions, hrest]
  have hstep := @step_of_end task p h.phase hend
  rcases hverify : verify task p.target with fault | ⟨⟩ <;> rw [hverify] at hstep
  · rw [run_of_fault hstep]
    constructor
    · rintro ⟨q, hrun, -⟩
      cases hrun
    · rintro ⟨hok, htarget, -⟩
      obtain rfl : p.target = target := Array.toList_inj.1 (h.target.trans htarget)
      rw [hverify] at hok
      cases hok
  · rw [run_of_done hstep]
    constructor
    · rintro ⟨q, hrun, rfl, rfl⟩
      cases hrun
      exact ⟨hverify, h.target.symm, h.data.symm, h.addresses.symm⟩
    · rintro ⟨-, htarget, rfl, rfl⟩
      obtain rfl : p.target = target := Array.toList_inj.1 (h.target.trans htarget)
      exact ⟨_, rfl, h.data, h.addresses⟩

/-- The replay ends well if the commands are spelled out and carried out to the end, and come to
what the window declares. -/
theorem run_iff_of_shows {target : Array UInt8} {data addresses : Cursor}
    (h : Shows nearSize sameSize p instructions l) :
    (∃ q, run task p = (.ok target, q) ∧ q.data = data ∧ q.addresses = addresses) ↔
      ∃ commands m, Command.parse? task.table instructions.rest = some commands ∧
        commands.foldlM (Ledger.perform task nearSize sameSize) l = some m ∧
        verify task target = .ok () ∧
        m.target = target.toList ∧ m.data = data ∧ m.addresses = addresses := by
  generalize hrest : instructions.rest = bytes
  -- opcode by opcode, as the section is parsed; the ledger moves on with the replay
  fun_induction Command.parse? task.table bytes generalizing p l instructions with
  | case1 =>
    rw [run_iff_of_end h hrest]
    simp
  | case2 opcode rest hentry =>
    have hstep := step_of_shows task h hrest
    have hobey : obey task nearSize sameSize (Command.entry? (task.table.entry opcode))
        (instructions.advance 1) l = none := by
      rw [obey, Cursor.rest_advance, hrest, List.drop_one, List.tail_cons, hentry]
      rfl
    rw [hobey] at hstep
    obtain ⟨fault, q, hstep⟩ := hstep
    rw [run_of_fault hstep]
    simp
  | case3 opcode rest commands k hentry ih =>
    have hstep := step_of_shows task h hrest
    have hobey : obey task nearSize sameSize (Command.entry? (task.table.entry opcode))
        (instructions.advance 1) l
          = (commands.foldlM (Ledger.perform task nearSize sameSize) l).map
              ((instructions.advance 1).advance k, ·) := by
      rw [obey, Cursor.rest_advance, hrest, List.drop_one, List.tail_cons, hentry]
      rfl
    rw [hobey] at hstep
    rcases hfold : commands.foldlM (Ledger.perform task nearSize sameSize) l with _ | m₁
    · -- the commands of this opcode cannot be carried out, so those of the section cannot
      rw [hfold] at hstep
      obtain ⟨fault, q, hstep⟩ := hstep
      rw [run_of_fault hstep]
      constructor
      · rintro ⟨q, hrun, -⟩
        cases hrun
      · rintro ⟨all, m, hparse, hall, -⟩
        obtain ⟨more, -, rfl⟩ := Option.map_eq_some_iff.1 hparse
        rw [List.foldlM_append, hfold] at hall
        cases hall
    · rw [hfold] at hstep
      obtain ⟨q, hstep, hshows⟩ := hstep
      have hleft : ((instructions.advance 1).advance k).rest = rest.drop k := by
        rw [Cursor.rest_advance, Cursor.rest_advance, hrest, List.drop_one, List.tail_cons]
      rw [run_of_more hstep, ih hshows hleft]
      constructor
      · rintro ⟨more, m, hparse, hmore, hm⟩
        refine ⟨commands ++ more, m, by rw [hparse]; rfl, ?_, hm⟩
        rw [List.foldlM_append, hfold]
        exact hmore
      · rintro ⟨all, m, hparse, hall, hm⟩
        obtain ⟨more, hmore, rfl⟩ := Option.map_eq_some_iff.1 hparse
        rw [List.foldlM_append, hfold] at hall
        exact ⟨more, m, hmore, hall, hm⟩

lemma shows_start (data instructions addresses : Cursor) (cache : AddressCache) :
    Shows cache.nearSize cache.sameSize (.start data instructions addresses cache) instructions
      (.start data addresses) :=
  ⟨rfl, rfl, rfl, rfl, rfl, AddressCache.mirrors_clear cache, rfl, rfl⟩

/-- **Acceptance.** A replay succeeds just if the sections of the window spell commands that have
all that they ask for and come to what the window declares. The target is then what the commands
make one by one, and from the data and addresses sections it has taken what the commands take. -/
theorem run_eq_ok_iff (task : Task) (data instructions addresses : Cursor) (cache : AddressCache)
    (target : Array UInt8) (data' addresses' : Cursor) :
    (∃ q, run task (.start data instructions addresses cache) = (.ok target, q) ∧
        q.data = data' ∧ q.addresses = addresses') ↔
      ∃ commands operands taken,
        task.Accepts cache.nearSize cache.sameSize
          ⟨data.rest, instructions.rest, addresses.rest⟩ commands operands taken ∧
        target.toList = targetOf task.source.toList (Command.ops commands data.rest operands) ∧
        data' = data.advance (commands.map Command.dataSize).sum ∧
        addresses' = addresses.advance taken := by
  rw [run_iff_of_shows (shows_start data instructions addresses cache)]
  constructor
  · rintro ⟨commands, m, hparse, hfold, hverify, htarget, rfl, rfl⟩
    have hmade : m.target.length = 0 + (commands.map Command.size).sum :=
      Ledger.length_of_foldlM hfold
    obtain ⟨operands, taken, -, hbytes, haddresses, rfl⟩ :=
      Ledger.foldlM_perform_eq_some_iff.1 hfold
    obtain ⟨hlength, hchecksum⟩ := verify_eq_ok_iff.1 hverify
    rw [htarget, Array.length_toList] at hmade
    rw [← htarget] at hchecksum
    exact ⟨commands, operands, taken, ⟨hparse, by omega, hbytes, haddresses, hchecksum⟩,
      htarget.symm, rfl, rfl⟩
  · rintro ⟨commands, operands, taken, ⟨hparse, hsize, hbytes, haddresses, hchecksum⟩, htarget,
      rfl, rfl⟩
    have hroom : (commands.map Command.size).sum
        ≤ task.targetLength - (Ledger.start data addresses).target.length := by
      simp [hsize, Ledger.start]
    have hfold := Ledger.foldlM_perform_eq_some_iff.2
      ⟨operands, taken, hroom, hbytes, haddresses, rfl⟩
    have hmade := Ledger.length_of_foldlM hfold
    have hmatch : ((Ledger.start data addresses).after task commands operands taken).target
        = target.toList := htarget.symm
    have hlength : target.size = task.targetLength := by
      rw [hmatch, Array.length_toList, hsize] at hmade
      exact hmade.trans (Nat.zero_add _)
    exact ⟨commands, _, hparse, hfold, verify_eq_ok_iff.2 ⟨hlength, by rwa [htarget]⟩, hmatch,
      rfl, rfl⟩

/-- A run of no bytes still takes its byte. -/
example :
    let (result, q) := run ⟨.default, #[], 0, none⟩ (.start (.ofSection "data section" 0 [7])
      (.ofSection "instructions section" 1 [0, 0]) (.ofSection "addresses section" 3 [])
      (.empty 4 3))
    result = .ok #[] ∧ q.data.rest = [] := by
  decide +kernel

end Replay

end Vcdiff
