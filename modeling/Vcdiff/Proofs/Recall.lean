import Vcdiff.Proofs.Phases
import Vcdiff.Proofs.Recency

/-!
Addresses that are recalled. A replay begins with a cleared cache, an address enters it only below
the position that it is decoded at, and that position never moves back. So whatever has happened so
far, each slot holds an address that can still be copied from, if there is anything to copy from at
all.
-/

namespace Vcdiff

namespace AddressCache

variable {c : AddressCache} {bound bound' here mode : Nat} {addresses : Cursor}

/-- Each slot holds zero or an address below the bound. -/
structure Below (c : AddressCache) (bound : Nat) : Prop where
  near : ∀ slot : Fin c.nearSize, c.near.get slot = 0 ∨ c.near.get slot < bound
  same : ∀ (index : Nat) (h : index < 256 * c.sameSize), c.same[index] = 0 ∨ c.same[index] < bound

lemma below_clear (c : AddressCache) (bound : Nat) : c.clear.Below bound where
  near slot := .inl (by simp [clear, empty, Vector.get])
  same index h := .inl (by simp [clear, empty])

lemma Below.mono (h : c.Below bound) (hle : bound ≤ bound') : c.Below bound' where
  near slot := (h.near slot).imp_right fun hlt => Nat.lt_of_lt_of_le hlt hle
  same index hindex := (h.same index hindex).imp_right fun hlt => Nat.lt_of_lt_of_le hlt hle

lemma Below.insert {address : Nat} (h : c.Below bound) (hlt : address < bound) :
    (c.insert address).Below bound where
  near slot := by
    have hslot : (c.insert address).near.get slot
        = if c.next = slot then address else c.near.get slot :=
      Vector.getElem_setIfInBounds slot.isLt
    rw [hslot]
    split
    · exact .inr hlt
    · exact h.near slot
  same index hindex := by
    have hslot : (c.insert address).same[index]
        = if address % (256 * c.sameSize) = index then address else c.same[index] :=
      Vector.getElem_setIfInBounds hindex
    rw [hslot]
    split
    · exact .inr hlt
    · exact h.same index hindex

/-- Only an address below the position that it is decoded at enters the cache. -/
lemma Below.decode (h : c.Below here) (mode : Nat) (addresses : Cursor) :
    (c.decode here mode addresses).2.1.Below here := by
  obtain ⟨address, rest, hdecode⟩ | ⟨fault, rest, hdecode⟩ := c.decode_cases here mode addresses
  · rw [hdecode]
    exact h.insert address.isLt
  · rw [hdecode]
    exact h

/-- The next address in the mode is one that a slot holds: any in a mode of the second cache, and
one at a distance of zero in a mode of the ring. -/
def Recalled (c : AddressCache) (mode : Nat) (addresses : Cursor) : Prop :=
  (2 ≤ mode ∧ mode < 2 + c.nearSize ∧
    ∃ size rest, Varint.scan Varint.maxValue addresses.rest = .value 0 size rest) ∨
  (2 + c.nearSize ≤ mode ∧ mode < 2 + c.nearSize + c.sameSize ∧ addresses.rest ≠ [])

lemma read_near {n : Nat} {rest : Cursor} {slot : Fin c.nearSize}
    (h : Cursor.readVarint Varint.maxValue addresses = .ok (n, rest)) :
    c.read here (.near slot) addresses = .ok (((c.near.get slot + n : Nat) : Int), rest) := by
  show Except.bind (Cursor.readVarint Varint.maxValue addresses) _ = _
  rw [h]
  rfl

lemma read_same {byte : UInt8} {rest : Cursor} {block : Fin c.sameSize}
    (hindex : 256 * block.val + byte.toNat < 256 * c.sameSize)
    (h : Cursor.readByte addresses = .ok (byte, rest)) :
    c.read here (.same block) addresses
      = .ok ((c.same[256 * block.val + byte.toNat] : Int), rest) := by
  show Except.bind (Cursor.readByte addresses) _ = _
  rw [h]
  rfl

/-- What is read for an address that is recalled is what its slot holds. -/
lemma Below.read_of_recalled (h : c.Below here) (hpos : 0 < here)
    (hrecalled : c.Recalled mode addresses) :
    ∃ (m : AddressMode c.nearSize c.sameSize) (address : Nat) (rest : Cursor),
      AddressMode.ofNat? c.nearSize c.sameSize mode = some m ∧
        c.read here m addresses = .ok ((address : Int), rest) ∧ address < here := by
  have hlt {value : Nat} (hvalue : value = 0 ∨ value < here) : value < here := by omega
  rcases hrecalled with ⟨hle, hslot, size, rest, hscan⟩ | ⟨hle, hblock, hrest⟩
  · obtain ⟨slot, rfl⟩ := Nat.exists_eq_add_of_le hle
    have hslot : slot < c.nearSize := by omega
    have hread : Cursor.readVarint Varint.maxValue addresses
        = .ok (0, { addresses with position := addresses.position + size, rest }) := by
      rw [Cursor.readVarint, hscan]
    exact ⟨.near ⟨slot, hslot⟩, _, _, AddressMode.ofNat?_toNat (.near ⟨slot, hslot⟩),
      read_near hread, hlt (h.near ⟨slot, hslot⟩)⟩
  · obtain ⟨block, rfl⟩ := Nat.exists_eq_add_of_le hle
    have hblock : block < c.sameSize := by omega
    obtain ⟨byte, rest, hrest⟩ := List.exists_cons_of_ne_nil hrest
    have hindex : 256 * block + byte.toNat < 256 * c.sameSize := by
      have := byte.toNat_lt
      omega
    exact ⟨.same ⟨block, hblock⟩, _, _, AddressMode.ofNat?_toNat (.same ⟨block, hblock⟩),
      read_same hindex (Cursor.readByte_of_cons hrest), hlt (h.same _ hindex)⟩

/-- An address that is recalled can be decoded if there is anything below its position. -/
lemma Below.decode_of_recalled (h : c.Below here) (hpos : 0 < here)
    (hrecalled : c.Recalled mode addresses) :
    ∃ address cache rest, c.decode here mode addresses = (.ok address, cache, rest) := by
  obtain ⟨m, address, rest, hm, hread, hlt⟩ := h.read_of_recalled hpos hrecalled
  have hinside : (0 : Int) ≤ address ∧ (address : Int) < here := by omega
  refine ⟨⟨address, hlt⟩, c.insert address, rest, ?_⟩
  rw [AddressCache.decode, hm]
  dsimp only
  rw [hread]
  exact dif_pos hinside

end AddressCache

namespace Replay

variable {task : Task} {p q : Progress} {α : Type}

/-- The addresses that the cache holds can be copied from, or are zero. -/
def Reusable (task : Task) (p : Progress) : Prop :=
  p.cache.Below (task.source.size + p.target.size)

/-- If its addresses could be reused before, they still can. -/
def StaysReusable (task : Task) (p q : Progress) : Prop := Reusable task p → Reusable task q

/-- The states that a replay is in between two calls, and within a step after its opcode and after
the first of its two instructions. -/
inductive Visits (task : Task) (p : Progress) : Progress → Prop
  | between (calls : List Call) : Visits task p (after task p calls)
  | begun (calls : List Call) {opcode : UInt8} {rest : Bytes}
    (hphase : (after task p calls).phase = .running)
    (hrest : (after task p calls).instructions.rest = opcode :: rest) :
    Visits task p (afterOpcode (after task p calls) rest)
  | halfway (calls : List Call) {opcode : UInt8} {rest : Bytes}
    (hphase : (after task p calls).phase = .running)
    (hrest : (after task p calls).instructions.rest = opcode :: rest)
    (hfirst : ((execute task (task.table.entry opcode).1).run.run
      (afterOpcode (after task p calls) rest)).1 = .ok ()) :
    Visits task p ((execute task (task.table.entry opcode).1).run.run
      (afterOpcode (after task p calls) rest)).2

/-! ### The addresses of a replay -/

lemma StaysReusable.refl (p : Progress) : StaysReusable task p p := id

lemma StaysReusable.trans (p q r : Progress) (h : StaysReusable task p q)
    (k : StaysReusable task q r) : StaysReusable task p r :=
  k ∘ h

lemma staysReusable_of_size (hcache : q.cache = p.cache) (hsize : p.target.size ≤ q.target.size) :
    StaysReusable task p q := by
  intro h
  unfold Reusable at h ⊢
  rw [hcache]
  exact h.mono (Nat.add_le_add_left hsize _)

/-- The address enters the cache below the position, and then the position moves on. -/
lemma keeps_staysReusable_copy (mode n : Nat) :
    Keeps (StaysReusable task) (copy task mode n) := by
  intro p h
  obtain ⟨address, _, -, hcopy⟩ | ⟨_, _, -, hcopy⟩ := copy_cases task mode n p
  · rw [hcopy]
    refine AddressCache.Below.mono (AddressCache.Below.insert h address.isLt) ?_
    rw [Target.size_copy]
    omega
  · rw [hcopy]
    exact h

lemma keeps_staysReusable_execute (i : Instruction) :
    Keeps (StaysReusable task) (execute task i) := by
  have happend (bytes : Bytes) : Keeps (StaysReusable task) (append bytes) := fun p =>
    staysReusable_of_size (q := { p with target := p.target ++ bytes.toArray }) rfl (by simp)
  have hfill (byte : UInt8) (n : Nat) : Keeps (StaysReusable task) (fill byte n) := fun p =>
    staysReusable_of_size (q := { p with target := Target.fill p.target byte n }) rfl (by simp)
  exact keeps_execute task StaysReusable.refl StaysReusable.trans
    (keeps_readInstructions (fun _ _ => id) _) (fun _ => keeps_readData (fun _ _ => id) _)
    (keeps_readData (fun _ _ => id) _) happend hfill keeps_staysReusable_copy i

lemma staysReusable_step (p : Progress) : StaysReusable task p (step task p).2 :=
  keeps_step StaysReusable.refl StaysReusable.trans (fun _ _ => id) (fun _ _ _ _ => id)
    keeps_staysReusable_execute p

lemma Visits.reusable (h : Visits task p q) (hp : Reusable task p) : Reusable task q := by
  have hafter (calls : List Call) : Reusable task (after task p calls) :=
    after_induction StaysReusable.refl StaysReusable.trans staysReusable_step calls p hp
  cases h with
  | between calls => exact hafter calls
  | begun calls hphase hrest => exact hafter calls
  | halfway calls hphase hrest hfirst => exact keeps_staysReusable_execute _ _ (hafter calls)

/-! ### A COPY -/

lemma operandSize_eq (i : Instruction) (p : Progress) :
    (∃ n instructions, (operandSize i).run.run p = (.ok n, { p with instructions })) ∨
    ∃ fault, (operandSize i).run.run p = (.error fault, p) ∧ fault.kind ≠ .invalidAddress := by
  by_cases hzero : i.size = 0
  case neg =>
    left
    refine ⟨i.size.toNat, p.instructions, ?_⟩
    rw [operandSize, if_neg hzero]
    rfl
  case pos =>
    rw [operandSize, if_pos hzero]
    show (∃ n instructions, readInstructions _ p = _) ∨ ∃ fault, readInstructions _ p = _ ∧ _
    unfold readInstructions
    rcases hread : Cursor.readVarint Varint.maxValue p.instructions with fault | ⟨n, instructions⟩
    · exact .inr ⟨fault, rfl, (Cursor.raises_readVarint _ _ _ hread).2⟩
    · exact .inl ⟨n, instructions, rfl⟩

/-- If a COPY is refused for its address, the address cannot be decoded. -/
lemma decode_of_invalidAddress {i : Instruction} {fault : Fault} (hkind : i.kind = .copy)
    (h : ((execute task i).run.run p).1 = .error fault) (hfault : fault.kind = .invalidAddress) :
    (p.cache.decode (task.source.size + p.target.size) i.mode.toNat p.addresses).1
      = .error fault := by
  rw [execute, if_neg (by simp [hkind]), hkind, bind_apply] at h
  obtain ⟨n, instructions, hsize⟩ | ⟨found, hsize, hfound⟩ := operandSize_eq i p
  · rw [hsize] at h
    dsimp only at h
    rw [bind_apply] at h
    rcases Nat.lt_or_ge (task.targetLength - p.target.size) n with hlt | hle
    · rw [checkRoom_of_lt (p := { p with instructions }) hlt] at h
      cases h
      cases hfault
    · rw [checkRoom_of_le (p := { p with instructions }) hle] at h
      dsimp only at h
      obtain ⟨_, _, -, hcopy⟩ | ⟨_, _, hdecode, hcopy⟩ :=
        copy_cases task i.mode.toNat n { p with instructions }
      · rw [hcopy] at h
        cases h
      · rw [hcopy] at h
        cases h
        exact congrArg Prod.fst hdecode
  · rw [hsize] at h
    cases h
    exact absurd hfault hfound

/-- **Recall.** Whatever state a replay is in, the addresses in the cache, also with the next one
that a COPY takes, are zero or below the position. So a COPY that asks for one of them is never
refused for its address, unless there is nothing to copy from. -/
theorem reusable_of_visits {data instructions addresses : Cursor} {cache : AddressCache}
    (h : Visits task (.start data instructions addresses cache) p) :
    let here := task.source.size + p.target.size
    p.cache.Below here ∧ (∀ mode, (p.cache.decode here mode p.addresses).2.1.Below here) ∧
      ∀ i : Instruction, i.kind = .copy → p.cache.Recalled i.mode.toNat p.addresses →
        ∀ fault, ((execute task i).run.run p).1 = .error fault → fault.kind = .invalidAddress →
          here = 0 := by
  have hbelow : p.cache.Below (task.source.size + p.target.size) :=
    h.reusable (AddressCache.below_clear cache _)
  refine ⟨hbelow, fun mode => hbelow.decode mode _,
    fun i hkind hrecalled fault hfault hinvalid => ?_⟩
  by_contra hne
  obtain ⟨address, cache, rest, hdecode⟩ :=
    hbelow.decode_of_recalled (Nat.pos_of_ne_zero hne) hrecalled
  have herror := decode_of_invalidAddress hkind hfault hinvalid
  rw [hdecode] at herror
  cases herror

/-- The second half of the opcode is a COPY that asks for the address of the COPY before, when the
first half has already moved the position on. -/
theorem reusable_of_visits_halfway :
    let task : Task := ⟨.default, #[7, 8, 9, 10], 9, none⟩
    let start : Progress := .start (.ofSection "data section" 0 [11])
      (.ofSection "instructions section" 1 [20, 235]) (.ofSection "addresses section" 3 [3, 3])
      (.empty 4 3)
    let p := ((execute task (task.table.entry 235).1).run.run
      (afterOpcode (after task start [.step]) [])).2
    let i := (task.table.entry 235).2
    Visits task start p ∧ i.kind = .copy ∧ p.cache.Recalled i.mode.toNat p.addresses ∧
      p.cache.Below 9 ∧ ∀ fault, ((execute task i).run.run p).1 = .error fault →
        fault.kind ≠ .invalidAddress := by
  intro task start p i
  have hvisits : Visits task start p :=
    @Visits.halfway task start [.step] 235 [] (by decide +kernel) (by decide +kernel)
      (by decide +kernel)
  have hrecalled : p.cache.Recalled i.mode.toNat p.addresses :=
    .inr ⟨by decide +kernel, by decide +kernel, by decide +kernel⟩
  have hposition : task.source.size + p.target.size = 9 := by decide +kernel
  obtain ⟨hbelow, -, hcopy⟩ := reusable_of_visits hvisits
  rw [hposition] at hbelow hcopy
  exact ⟨hvisits, by decide +kernel, hrecalled, hbelow, fun fault hfault hinvalid =>
    absurd (hcopy i (by decide +kernel) hrecalled fault hfault hinvalid) (by decide)⟩

end Replay

end Vcdiff
