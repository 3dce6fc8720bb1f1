import Vcdiff.Proofs.Adler
import Vcdiff.Proofs.Copy
import Vcdiff.Proofs.History
import Vcdiff.Proofs.Replay

/-!
Scripts: what an encoder may write for a list of instructions. For each of them it picks an opcode
of the code table that has the instruction as its only half or as one of its two, and for each
address a mode. Replaying the sections of a script makes the target that its instructions define.
-/

namespace Vcdiff

inductive Op where
  | add (bytes : Bytes)
  | run (byte : UInt8) (n : Nat)
  | copy (address n : Nat)
  deriving DecidableEq

namespace Op

def apply (source target : Bytes) : Op → Bytes
  | add bytes => target ++ bytes
  | run byte n => target ++ List.replicate n byte
  | copy address n => Target.copyBytes source target address n

def remember (history : History) : Op → History
  | copy address _ => address :: history
  | _ => history

end Op

def targetOf (source : Bytes) (ops : List Op) : Bytes := ops.foldl (Op.apply source) []

/-- What an instruction, or a list of them, takes in each section. -/
@[ext] structure Sections where
  data : Bytes
  instructions : Bytes
  addresses : Bytes
  deriving DecidableEq

namespace Sections

instance : Append Sections where
  append s t := ⟨s.data ++ t.data, s.instructions ++ t.instructions, s.addresses ++ t.addresses⟩

variable (s t : Sections)

lemma append_assoc (s t u : Sections) : s ++ t ++ u = s ++ (t ++ u) := by
  ext1
  · exact List.append_assoc _ _ _
  · exact List.append_assoc _ _ _
  · exact List.append_assoc _ _ _

end Sections

/-- The bytes after an opcode that state the size of an instruction, if the table does not. -/
inductive SizeForm (n : Nat) : UInt8 → Bytes → Prop
  | stated {size : UInt8} {bytes : Bytes} (hzero : size = 0) (h : Varint.Written n bytes) :
    SizeForm n size bytes
  | known {size : UInt8} (hne : size ≠ 0) (h : size.toNat = n) : SizeForm n size []

/-- What an instruction may be written as by one half of a table entry. -/
inductive HalfForm (table : CodeTable) (source target : Bytes) (history : History) :
    Instruction → Op → Sections → Prop
  | add {i : Instruction} {bytes size : Bytes} (hkind : i.kind = .add)
    (hsize : SizeForm bytes.length i.size size) :
    HalfForm table source target history i (.add bytes) ⟨bytes, size, []⟩
  | run {i : Instruction} {n : Nat} {size : Bytes} (byte : UInt8) (hkind : i.kind = .run)
    (hsize : SizeForm n i.size size) :
    HalfForm table source target history i (.run byte n) ⟨[byte], size, []⟩
  | copy {i : Instruction} {address n : Nat} {size bytes : Bytes} (hkind : i.kind = .copy)
    (hsize : SizeForm n i.size size) (hlt : address < source.length + target.length)
    (haddress : AddressCache.AddressForm table.nearSize table.sameSize history
      (source.length + target.length) address i.mode.toNat bytes) :
    HalfForm table source target history i (.copy address n) ⟨[], size, bytes⟩

/-- What a list of instructions may be written as: each stands alone under an opcode, or shares
one with the next. -/
inductive Script (table : CodeTable) (source : Bytes) :
    Bytes → History → List Op → Sections → Prop
  | nil (target : Bytes) (history : History) : Script table source target history [] ⟨[], [], []⟩
  | one {target : Bytes} {history : History} {op : Op} {ops : List Op} {s rest : Sections}
    (opcode : UInt8) (hfirst : HalfForm table source target history (table.entry opcode).1 op s)
    (hsecond : (table.entry opcode).2.kind = .noop)
    (h : Script table source (op.apply source target) (op.remember history) ops rest) :
    Script table source target history (op :: ops) (⟨[], [opcode], []⟩ ++ s ++ rest)
  | two {target : Bytes} {history : History} {op₁ op₂ : Op} {ops : List Op}
    {s₁ s₂ rest : Sections} (opcode : UInt8)
    (hfirst : HalfForm table source target history (table.entry opcode).1 op₁ s₁)
    (hsecond : HalfForm table source (op₁.apply source target) (op₁.remember history)
      (table.entry opcode).2 op₂ s₂)
    (h : Script table source (op₂.apply source (op₁.apply source target))
      (op₂.remember (op₁.remember history)) ops rest) :
    Script table source target history (op₁ :: op₂ :: ops) (⟨[], [opcode], []⟩ ++ s₁ ++ s₂ ++ rest)

/-! ### Lengths -/

section Lengths

variable {table : CodeTable} {source target : Bytes} {history : History} {i : Instruction}
  {op : Op} {ops : List Op} {s : Sections}

lemma HalfForm.length_le (h : HalfForm table source target history i op s) :
    target.length ≤ (op.apply source target).length := by
  cases h with
  | add hkind hsize => simp [Op.apply]
  | run byte hkind hsize => simp [Op.apply]
  | copy hkind hsize hlt haddress =>
    rw [Op.apply, Target.length_copyBytes hlt]
    omega

lemma Script.length_le (h : Script table source target history ops s) :
    target.length ≤ (ops.foldl (Op.apply source) target).length := by
  induction h with
  | nil target history => exact Nat.le_refl _
  | one opcode hfirst hsecond h ih => exact Nat.le_trans hfirst.length_le ih
  | two opcode hfirst hsecond h ih =>
    exact Nat.le_trans hfirst.length_le (Nat.le_trans hsecond.length_le ih)

end Lengths

namespace Replay

variable {task : Task} {p : Progress} {i : Instruction} {op : Op} {s rest : Sections}
  {history : History} {target : Bytes}

/-- What is left of the sections, and what has been made of the rest. -/
structure At (task : Task) (p : Progress) (rest : Sections) (history : History)
    (target : Bytes) : Prop where
  data : p.data.rest = rest.data
  instructions : p.instructions.rest = rest.instructions
  addresses : p.addresses.rest = rest.addresses
  nearSize : p.cache.nearSize = task.table.nearSize
  sameSize : p.cache.sameSize = task.table.sameSize
  mirrors : p.cache.Mirrors history
  target : p.target.toList = target
  phase : p.phase = .running

/-! ### One instruction -/

lemma operandSize_of_form {n : Nat} {bytes more : Bytes} (h : SizeForm n i.size bytes)
    (hrest : p.instructions.rest = bytes ++ more) :
    ∃ instructions : Cursor, instructions.rest = more ∧
      (operandSize i).run.run p = (.ok n, { p with instructions }) := by
  cases h with
  | stated hzero h =>
    refine ⟨{ p.instructions with
      position := p.instructions.position + bytes.length, rest := more }, rfl, ?_⟩
    rw [operandSize, if_pos hzero]
    show readInstructions (Cursor.readVarint Varint.maxValue) p = _
    rw [readInstructions, Cursor.readVarint_of_written h hrest]
  | known hne h =>
    refine ⟨p.instructions, hrest, ?_⟩
    rw [operandSize, if_neg hne, h]
    rfl

lemma checkRoom_of_le {n : Nat} (h : n ≤ task.targetLength - p.target.size) :
    (checkRoom task n).run.run p = (.ok (), p) := by
  show checkRoom task n p = _
  rw [checkRoom, if_neg (by omega)]

lemma checkRoom_of_lt {n : Nat} (h : task.targetLength - p.target.size < n) :
    (checkRoom task n).run.run p
      = (.error (.overrun n p.target.size task.targetLength), p) := by
  show checkRoom task n p = _
  rw [checkRoom, if_pos h]

lemma readData_of_ok {α : Type} {read : Cursor.Read α} {a : α} {data : Cursor}
    (h : read p.data = .ok (a, data)) :
    (readData read).run.run p = (.ok a, { p with data }) := by
  show readData read p = _
  rw [readData, h]

lemma readData_of_error {α : Type} {read : Cursor.Read α} {fault : Fault}
    (h : read p.data = .error fault) : (readData read).run.run p = (.error fault, p) := by
  show readData read p = _
  rw [readData, h]

lemma copy_of_decode {mode n : Nat} {address : Fin (task.source.size + p.target.size)}
    {cache : AddressCache} {addresses : Cursor}
    (h : p.cache.decode (task.source.size + p.target.size) mode p.addresses
      = (.ok address, cache, addresses)) :
    (copy task mode n).run.run p = (.ok (),
      { p with cache, addresses, target := Target.copy task.source p.target address n }) := by
  show copy task mode n p = _
  rw [copy, h]

lemma execute_of_operandSize {n : Nat} {instructions : Cursor} (hkind : i.kind ≠ .noop)
    (hsize : (operandSize i).run.run p = (.ok n, { p with instructions }))
    (hroom : p.target.size + n ≤ task.targetLength) :
    (execute task i).run.run p = (match i.kind with
      | .noop => pure ()
      | .add => do append (← readData (Cursor.readBytes n))
      | .run => do fill (← readData Cursor.readByte) n
      | .copy => copy task i.mode.toNat n : Action Unit).run.run { p with instructions } := by
  rcases i with ⟨_ | _ | _ | _, size, mode⟩
  · exact absurd rfl hkind
  all_goals
    rw [execute, if_neg hkind, bind_apply, hsize]
    dsimp only
    rw [bind_apply, checkRoom_of_le (p := { p with instructions }) (Nat.le_sub_of_add_le' hroom)]

/-- An instruction in one of its forms is executed, and takes just what the form has for it. -/
theorem execute_of_form (h : HalfForm task.table task.source.toList target history i op s)
    (hat : At task p (s ++ rest) history target)
    (hroom : (op.apply task.source.toList target).length ≤ task.targetLength) :
    ∃ q, (execute task i).run.run p = (.ok (), q) ∧
      At task q rest (op.remember history) (op.apply task.source.toList target) := by
  have htarget := hat.target
  have hlength : p.target.size = target.length := by rw [← htarget, Array.length_toList]
  cases h with
  | @add bytes size hkind hsize =>
    obtain ⟨instructions, hrest, hoperand⟩ := operandSize_of_form hsize hat.instructions
    rw [Op.apply, List.length_append] at hroom
    have hdata : p.data.rest = bytes ++ rest.data := hat.data
    have hread := Cursor.readBytes_of_append hdata
    rw [execute_of_operandSize (by simp [hkind]) hoperand (by omega), hkind]
    dsimp only
    rw [bind_apply, readData_of_ok (p := { p with instructions }) hread]
    refine ⟨_, rfl, rfl, hrest, hat.addresses, hat.nearSize, hat.sameSize, hat.mirrors, ?_,
      hat.phase⟩
    simp [Op.apply, htarget]
  | @run n size byte hkind hsize =>
    obtain ⟨instructions, hrest, hoperand⟩ := operandSize_of_form hsize hat.instructions
    rw [Op.apply, List.length_append, List.length_replicate] at hroom
    have hdata : p.data.rest = byte :: rest.data := hat.data
    have hread := Cursor.readByte_of_cons hdata
    rw [execute_of_operandSize (by simp [hkind]) hoperand (by omega), hkind]
    dsimp only
    rw [bind_apply, readData_of_ok (p := { p with instructions }) hread]
    refine ⟨_, rfl, rfl, hrest, hat.addresses, hat.nearSize, hat.sameSize, hat.mirrors, ?_,
      hat.phase⟩
    simp [Op.apply, Target.fill_eq_append, htarget]
  | @copy address n size bytes hkind hsize hlt haddress =>
    obtain ⟨instructions, hrest, hoperand⟩ := operandSize_of_form hsize hat.instructions
    rw [Op.apply, Target.length_copyBytes hlt] at hroom
    rw [Array.length_toList, ← hlength] at hlt haddress
    rw [← hat.nearSize, ← hat.sameSize] at haddress
    have hbytes : p.addresses.rest = bytes ++ rest.addresses := hat.addresses
    have hdecode := AddressCache.decode_of_form hat.mirrors hlt haddress hbytes
    rw [execute_of_operandSize (by simp [hkind]) hoperand (by omega), hkind]
    dsimp only
    rw [copy_of_decode (p := { p with instructions }) hdecode]
    refine ⟨_, rfl, hat.data, hrest, rfl, hat.nearSize, hat.sameSize, hat.mirrors.insert address,
      ?_, hat.phase⟩
    rw [Target.toList_copy, htarget, Op.apply]

/-! ### All instructions -/

lemma execute_of_noop (h : i.kind = .noop) (p : Progress) :
    (execute task i).run.run p = (.ok (), p) := by
  rw [execute, if_pos h]
  rfl

lemma At.afterOpcode {opcode : UInt8} (hat : At task p (⟨[], [opcode], []⟩ ++ s) history target) :
    At task (afterOpcode p s.instructions) s history target :=
  ⟨hat.data, rfl, hat.addresses, hat.nearSize, hat.sameSize, hat.mirrors, hat.target, hat.phase⟩

lemma step_of_executeEntry {opcode : UInt8} {q : Progress}
    (hat : At task p (⟨[], [opcode], []⟩ ++ s) history target)
    (h : (executeEntry task (task.table.entry opcode)).run.run (afterOpcode p s.instructions)
      = (.ok (), q)) : step task p = (.ok true, q) := by
  have hrest : p.instructions.rest = opcode :: s.instructions := hat.instructions
  rw [step_of_opcode hat.phase hrest, h]

lemma verify_eq_ok_iff {target : Array UInt8} :
    verify task target = .ok () ↔ target.size = task.targetLength ∧
      ∀ checksum, task.checksum = some checksum →
        Checksum.plain Checksum.initial target.toList = checksum := by
  unfold verify
  split
  · simp [*]
  · rcases task.checksum with _ | checksum
    · simp_all
    · simp only [← Checksum.adler32_eq_plain]
      split <;> simp_all

/-- **Scripts.** Replaying a script gives the target of its instructions, if that has the length
and the checksum that the window declares. -/
theorem run_of_script {ops : List Op} {final : Bytes}
    (h : Script task.table task.source.toList target history ops s)
    (hat : At task p s history target)
    (hfinal : ops.foldl (Op.apply task.source.toList) target = final)
    (hlength : final.length = task.targetLength)
    (hchecksum : ∀ checksum, task.checksum = some checksum →
      Checksum.plain Checksum.initial final = checksum) :
    ∃ q, run task p = (.ok final.toArray, q) := by
  induction h generalizing p with
  | nil target history =>
    rw [List.foldl_nil] at hfinal
    have htarget : p.target.toList = final := hat.target.trans hfinal
    have hverify : verify task p.target = .ok () := by
      refine verify_eq_ok_iff.2 ⟨?_, ?_⟩
      · rw [← hlength, ← htarget, Array.length_toList]
      · rwa [htarget]
    have hstep := @step_of_end task p hat.phase hat.instructions
    rw [hverify] at hstep
    refine ⟨{ p with phase := .done }, ?_⟩
    rw [run_of_done hstep, ← htarget]
  | @one target history op ops s rest opcode hfirst hsecond h ih =>
    have hroom : (op.apply task.source.toList target).length ≤ task.targetLength := by
      rw [← hlength, ← hfinal]
      exact h.length_le
    have hat' : At task p (⟨[], [opcode], []⟩ ++ (s ++ rest)) history target := by
      rwa [← Sections.append_assoc]
    obtain ⟨q, hexecute, hq⟩ := execute_of_form hfirst hat'.afterOpcode hroom
    have hentry : (executeEntry task (task.table.entry opcode)).run.run
        (afterOpcode p (s ++ rest).instructions) = (.ok (), q) := by
      rw [executeEntry, bind_apply, hexecute]
      exact execute_of_noop hsecond q
    obtain ⟨r, hrun⟩ := ih hq hfinal
    exact ⟨r, (run_of_more (step_of_executeEntry hat' hentry)).trans hrun⟩
  | @two target history op₁ op₂ ops s₁ s₂ rest opcode hfirst hsecond h ih =>
    have hroom : (op₂.apply task.source.toList (op₁.apply task.source.toList target)).length
        ≤ task.targetLength := by
      rw [← hlength, ← hfinal]
      exact h.length_le
    have hat' : At task p (⟨[], [opcode], []⟩ ++ (s₁ ++ (s₂ ++ rest))) history target := by
      rwa [← Sections.append_assoc, ← Sections.append_assoc]
    obtain ⟨q₁, hexecute₁, hq₁⟩ := execute_of_form hfirst hat'.afterOpcode
      (Nat.le_trans hsecond.length_le hroom)
    obtain ⟨q₂, hexecute₂, hq₂⟩ := execute_of_form hsecond hq₁ hroom
    have hentry : (executeEntry task (task.table.entry opcode)).run.run
        (afterOpcode p (s₁ ++ (s₂ ++ rest)).instructions) = (.ok (), q₂) := by
      rw [executeEntry, bind_apply, hexecute₁]
      exact hexecute₂
    obtain ⟨r, hrun⟩ := ih hq₂ hfinal
    exact ⟨r, (run_of_more (step_of_executeEntry hat' hentry)).trans hrun⟩

end Replay

end Vcdiff
