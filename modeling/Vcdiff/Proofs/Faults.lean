import Vcdiff.Proofs.Incremental
import Vcdiff.Proofs.Replay

/-!
Whose fault it is. What parsers and replays find wrong is wrong with the delta: it is never a limit,
and never an operation at the wrong time. Parsers know nothing of addresses, so only a replay finds
a wrong one.
-/

namespace Vcdiff

/-- Neither a limit nor the caller is to blame. -/
def Fault.OfDelta (fault : Fault) : Prop := fault.kind ≠ .limitExceeded ∧ fault.kind ≠ .misuse

/-- Nor is an address. -/
def Fault.OfFormat (fault : Fault) : Prop := fault.OfDelta ∧ fault.kind ≠ .invalidAddress

lemma Fault.ofFormat_of_kind {fault : Fault} (kind : Fault.Kind) (h : fault.kind = kind)
    (hkind : kind ≠ .limitExceeded ∧ kind ≠ .misuse ∧ kind ≠ .invalidAddress) :
    fault.OfFormat := by
  subst h
  exact ⟨⟨hkind.1, hkind.2.1⟩, hkind.2.2⟩

namespace Parser

variable {α β : Type} {P : Fault → Prop}

/-- All faults of the parser are of this kind. -/
def Raises (P : Fault → Prop) (p : Parser α) : Prop :=
  ∀ i fault, p i = .error (.invalid fault) → P fault

lemma raises_pure (a : α) : Raises P (pure a : Parser α) := by
  intro i fault h
  cases h

lemma raises_bind {p : Parser α} {f : α → Parser β} (hp : Raises P p)
    (hf : ∀ a, Raises P (f a)) : Raises P (p >>= f) := by
  intro i fault h
  rcases bind_eq_error_iff.1 h with h1 | ⟨a, j, -, h2⟩
  · exact hp i fault h1
  · exact hf a j fault h2

lemma raises_map {p : Parser α} (f : α → β) (hp : Raises P p) : Raises P (f <$> p) := by
  rw [← bind_pure_comp]
  exact raises_bind hp fun a => raises_pure (f a)

lemma raises_position : Raises P position := by
  intro i fault h
  cases h

lemma raises_ahead : Raises P ahead := by
  intro i fault h
  cases h

lemma raises_failIf (c : Prop) [Decidable c] {fault : Fault} (h : P fault) :
    Raises P (failIf c fault) := by
  intro i found hfound
  unfold failIf at hfound
  split at hfound
  · cases hfound
    exact h
  · cases hfound

lemma raises_byte (unit : Nat) : Raises P (byte unit) := by
  rintro ⟨position, rest, gap⟩ fault h
  rcases rest with _ | ⟨b, rest⟩ <;> cases h

lemma raises_need (n : Nat) : Raises P (need n) := by
  intro i fault h
  rcases Nat.lt_or_ge i.rest.length n with hlt | hle
  · rw [need_of_lt hlt] at h
    cases h
  · rw [need_of_le hle] at h
    cases h

lemma raises_take (n : Nat) : Raises P (take n) := by
  intro i fault h
  rcases Nat.lt_or_ge i.rest.length n with hlt | hle
  · rw [take_of_lt hlt] at h
    cases h
  · rw [take_of_le hle] at h
    cases h

lemma raises_varint (h : ∀ offset, P (.varintTooLarge offset Varint.maxValue)) :
    Raises P varint := by
  intro i fault hfault
  rcases hs : Varint.scan Varint.maxValue i.rest with ⟨n, size, rest⟩ | _ | _
  · rw [varint_of_value hs] at hfault
    cases hfault
  · rw [varint_of_tooLarge hs] at hfault
    cases hfault
    exact h i.position
  · rw [varint_of_cutOff hs] at hfault
    cases hfault

lemma raises_orFault {p : Parser α} (hp : Raises P p) {fault : Fault} (h : P fault) :
    Raises P (p.orFault fault) := by
  intro i found hfound
  unfold orFault at hfound
  split at hfound
  · cases hfound
    exact h
  · exact hp i found hfound

lemma raises_within {p : Parser α} (hp : Raises P p) (start : Nat) (bytes : Bytes) :
    Raises P (within start bytes p) := by
  intro i fault h
  rcases hb : p (.ofBytes start bytes) with halt | ⟨a, k⟩
  · rw [within_of_error i hb] at h
    cases h
    exact hp _ _ hb
  · rw [within_of_ok i hb] at h
    cases h

end Parser

open Vcdiff.Parser

lemma Parser.raises_varint_ofFormat : Raises Fault.OfFormat varint :=
  raises_varint fun _ => ⟨⟨nofun, nofun⟩, nofun⟩

/-! ### Parsing -/

namespace FileHeader

lemma raises_expect (unit : Nat) (expected : Bytes) :
    Raises Fault.OfFormat (expect unit expected) := by
  induction expected generalizing unit with
  | nil => exact raises_pure ()
  | cons b rest ih =>
    exact raises_bind (raises_byte unit) fun _ =>
      raises_bind (raises_failIf _ ⟨⟨nofun, nofun⟩, nofun⟩) fun _ => ih (unit - 1)

lemma raises_fixedPart : Raises Fault.OfFormat fixedPart :=
  raises_bind (raises_expect _ _) fun _ => raises_bind (raises_need 2) fun _ =>
    raises_bind (raises_byte 2) fun _ =>
    raises_bind (raises_failIf _ ⟨⟨nofun, nofun⟩, nofun⟩) fun _ =>
    raises_bind (raises_byte 1) fun _ =>
    raises_bind (raises_failIf _ ⟨⟨nofun, nofun⟩, nofun⟩) fun _ =>
    raises_bind (raises_failIf _ ⟨⟨nofun, nofun⟩, nofun⟩) fun _ => raises_pure _

lemma raises_tableSection : Raises Fault.OfFormat tableSection :=
  raises_bind raises_varint_ofFormat fun _ =>
    raises_bind (raises_failIf _ ⟨⟨nofun, nofun⟩, nofun⟩) fun _ =>
    raises_bind (raises_need _) fun _ =>
    raises_bind (raises_byte 2) fun _ => raises_bind (raises_byte 1) fun _ =>
    raises_bind (raises_take _) fun _ => raises_pure _

lemma raises_tablePart (indicator : UInt8) : Raises Fault.OfFormat (tablePart indicator) := by
  unfold tablePart
  split
  · exact raises_pure none
  · exact raises_map some raises_tableSection

lemma raises_applicationPart (indicator : UInt8) :
    Raises Fault.OfFormat (applicationPart indicator) := by
  unfold applicationPart
  split
  · exact raises_pure none
  · exact raises_map some (raises_bind raises_varint_ofFormat fun _ => raises_take _)

lemma parser_raises : Raises Fault.OfFormat parser :=
  raises_bind raises_position fun _ => raises_bind raises_fixedPart fun _ =>
    raises_bind (raises_tablePart _) fun _ => raises_bind (raises_applicationPart _) fun _ =>
    raises_bind raises_position fun _ => raises_pure _

lemma ofFormat_of_parse {i : Input} {fault : Fault} (h : parse i = .error (.invalid fault)) :
    fault.OfFormat := by
  unfold parse at h
  split at h
  · cases h
  · rcases hp : parser i with halt | ⟨header, j⟩
    · rw [hp] at h
      cases h
      exact parser_raises i fault hp
    · rw [hp] at h
      cases h

end FileHeader

namespace Window

lemma raises_indicatorByte : Raises Fault.OfFormat indicatorByte :=
  raises_bind (raises_byte 1) fun _ =>
    raises_bind (raises_failIf _ ⟨⟨nofun, nofun⟩, nofun⟩) fun _ =>
    raises_bind (raises_failIf _ ⟨⟨nofun, nofun⟩, nofun⟩) fun _ => raises_pure _

lemma raises_segmentPart : ∀ origin, Raises Fault.OfFormat (segmentPart origin)
  | none => raises_pure none
  | some _ => raises_bind raises_varint_ofFormat fun _ =>
      raises_bind raises_varint_ofFormat fun _ => raises_pure _

lemma raises_checksumPart (indicator : UInt8) : Raises Fault.OfFormat (checksumPart indicator) := by
  unfold checksumPart
  split
  · exact raises_pure none
  · exact raises_map _ (raises_take 4)

lemma raises_lengthsPart (indicator : UInt8) (deltaLength : Nat) :
    Raises Fault.OfFormat (lengthsPart indicator deltaLength) :=
  raises_bind (raises_orFault raises_varint_ofFormat ⟨⟨nofun, nofun⟩, nofun⟩) fun _ =>
    raises_bind (raises_orFault (raises_byte 1) ⟨⟨nofun, nofun⟩, nofun⟩) fun _ =>
    raises_bind (raises_failIf _ ⟨⟨nofun, nofun⟩, nofun⟩) fun _ =>
    raises_bind (raises_failIf _ ⟨⟨nofun, nofun⟩, nofun⟩) fun _ =>
    raises_bind (raises_orFault raises_varint_ofFormat ⟨⟨nofun, nofun⟩, nofun⟩) fun _ =>
    raises_bind (raises_orFault raises_varint_ofFormat ⟨⟨nofun, nofun⟩, nofun⟩) fun _ =>
    raises_bind (raises_orFault raises_varint_ofFormat ⟨⟨nofun, nofun⟩, nofun⟩) fun _ =>
    raises_bind (raises_orFault (raises_checksumPart indicator) ⟨⟨nofun, nofun⟩, nofun⟩) fun _ =>
    raises_pure _

lemma raises_deltaPart (offset : Nat) (indicator : UInt8) (segment : Option Segment)
    (deltaLength : Nat) : Raises Fault.OfFormat (deltaPart offset indicator segment deltaLength) :=
  raises_bind (raises_lengthsPart _ _) fun _ => raises_bind raises_position fun _ =>
    raises_bind raises_ahead fun _ => raises_bind (raises_failIf _ ⟨⟨nofun, nofun⟩, nofun⟩) fun _ =>
    raises_pure _

lemma parser_raises : Raises Fault.OfFormat parser :=
  raises_bind raises_position fun _ => raises_bind raises_indicatorByte fun _ =>
    raises_bind (raises_segmentPart _) fun _ => raises_bind raises_varint_ofFormat fun _ =>
    raises_bind raises_position fun _ => raises_bind (raises_take _) fun _ =>
    raises_within (raises_deltaPart _ _ _ _) _ _

lemma ofFormat_of_parse {i : Input} {fault : Fault} (h : parse i = .error (.invalid fault)) :
    fault.OfFormat :=
  parser_raises i fault (parse_eq_error_iff.1 h)

end Window

/-! ### Replaying -/

namespace Cursor

variable {α β : Type} {P : Fault → Prop}

def Raises (P : Fault → Prop) (read : Read α) : Prop := ∀ c fault, read c = .error fault → P fault

lemma raises_pure (a : α) : Raises P (pure a : Read α) := by
  intro c fault h
  cases h

lemma raises_bind {read : Read α} {f : α → Read β} (hr : Raises P read)
    (hf : ∀ a, Raises P (f a)) : Raises P (read >>= f) := by
  intro c fault h
  have h : Except.bind (read c) (fun x => f x.1 x.2) = .error fault := h
  rcases hread : read c with found | ⟨a, d⟩
  · rw [hread] at h
    cases h
    exact hr c fault hread
  · rw [hread] at h
    exact hf a d fault h

lemma raises_readByte : Raises Fault.OfFormat readByte := by
  rintro ⟨label, start, position, rest⟩ fault h
  rcases rest with _ | ⟨b, rest⟩
  · cases h
    exact ⟨⟨nofun, nofun⟩, nofun⟩
  · cases h

lemma raises_readBytes (n : Nat) : Raises Fault.OfFormat (readBytes n) := by
  intro c fault h
  rcases Nat.lt_or_ge c.rest.length n with hlt | hle
  · rw [readBytes_of_lt hlt] at h
    cases h
    exact ⟨⟨nofun, nofun⟩, nofun⟩
  · rw [readBytes_of_le hle] at h
    cases h

lemma raises_readVarint (limit : Nat) : Raises Fault.OfFormat (readVarint limit) := by
  intro c fault h
  unfold readVarint at h
  split at h <;> cases h <;> exact ⟨⟨nofun, nofun⟩, nofun⟩

end Cursor

namespace AddressCache

lemma raises_read (c : AddressCache) (here : Nat) :
    ∀ m, Cursor.Raises Fault.OfFormat (c.read here m)
  | .self => Cursor.raises_bind (Cursor.raises_readVarint _) fun _ => Cursor.raises_pure _
  | .here => Cursor.raises_bind (Cursor.raises_readVarint _) fun _ => Cursor.raises_pure _
  | .near _ => Cursor.raises_bind (Cursor.raises_readVarint _) fun _ => Cursor.raises_pure _
  | .same _ => Cursor.raises_bind Cursor.raises_readByte fun _ => Cursor.raises_pure _

lemma ofDelta_of_decode {c : AddressCache} {here mode : Nat} {addresses : Cursor} {fault : Fault}
    (h : (c.decode here mode addresses).1 = .error fault) : fault.OfDelta := by
  unfold decode at h
  rcases hmode : AddressMode.ofNat? c.nearSize c.sameSize mode with _ | m
  · simp only [hmode] at h
    cases h
    exact ⟨nofun, nofun⟩
  · rcases hread : c.read here m addresses with found | ⟨number, rest⟩
    · simp only [hmode, hread] at h
      cases h
      exact (raises_read c here m addresses fault hread).1
    · simp only [hmode, hread] at h
      split at h <;> cases h
      exact ⟨nofun, nofun⟩

end AddressCache

namespace Replay

variable {α β : Type} {P : Fault → Prop} {task : Task} {p q : Progress}

/-- What comes of the progress `p` is such a fault, or progress in the same phase. -/
def Stays (P : Fault → Prop) (p : Progress) : Except Fault α × Progress → Prop
  | (.ok _, q) => q.phase = p.phase
  | (.error fault, _) => P fault

/-- All faults of the action are of this kind, and unless it meets one it stays in the phase. -/
def Raises (P : Fault → Prop) (x : Action α) : Prop := ∀ p, Stays P p (x.run.run p)

lemma raises_pure (a : α) : Raises P (pure a : Action α) := fun _ => rfl

lemma raises_bind {x : Action α} {f : α → Action β} (hx : Raises P x)
    (hf : ∀ a, Raises P (f a)) : Raises P (x >>= f) := by
  intro p
  have h := hx p
  rw [bind_apply]
  rcases hrun : x.run.run p with ⟨fault | a, q⟩
  · rw [hrun] at h
    exact h
  · rw [hrun] at h
    have hnext := hf a q
    show Stays P p ((f a).run.run q)
    rcases hrun' : (f a).run.run q with ⟨fault | b, r⟩
    · rw [hrun'] at hnext
      exact hnext
    · rw [hrun'] at hnext
      exact hnext.trans h

lemma raises_readData {read : Cursor.Read α} (h : Cursor.Raises Fault.OfFormat read) :
    Raises Fault.OfDelta (readData read) := by
  intro p
  show Stays Fault.OfDelta p (readData read p)
  unfold readData
  rcases hread : read p.data with fault | ⟨a, data⟩
  · exact (h _ _ hread).1
  · rfl

lemma raises_readInstructions {read : Cursor.Read α} (h : Cursor.Raises Fault.OfFormat read) :
    Raises Fault.OfDelta (readInstructions read) := by
  intro p
  show Stays Fault.OfDelta p (readInstructions read p)
  unfold readInstructions
  rcases hread : read p.instructions with fault | ⟨a, instructions⟩
  · exact (h _ _ hread).1
  · rfl

lemma raises_copy (mode size : Nat) : Raises Fault.OfDelta (copy task mode size) := by
  intro p
  show Stays Fault.OfDelta p (copy task mode size p)
  unfold copy
  dsimp only
  rcases hdecode : p.cache.decode (task.source.size + p.target.size) mode p.addresses with
    ⟨fault | address, cache, addresses⟩
  · exact AddressCache.ofDelta_of_decode (congrArg Prod.fst hdecode)
  · rfl

lemma raises_checkRoom (size : Nat) : Raises Fault.OfDelta (checkRoom task size) := by
  intro p
  show Stays Fault.OfDelta p (checkRoom task size p)
  unfold checkRoom
  by_cases h : task.targetLength - p.target.size < size
  · rw [if_pos h]
    exact ⟨nofun, nofun⟩
  · rw [if_neg h]
    rfl

lemma compositional_raises (task : Task) : Compositional task (Raises Fault.OfDelta) where
  ofPure := raises_pure
  ofBind := raises_bind
  readSize := raises_readInstructions (Cursor.raises_readVarint _)
  readBytes n := raises_readData (Cursor.raises_readBytes n)
  readByte := raises_readData Cursor.raises_readByte
  append _ _ := rfl
  fill _ _ _ := rfl
  checkRoom := raises_checkRoom
  copy := raises_copy

lemma ofFormat_of_verify {target : Array UInt8} {fault : Fault}
    (h : verify task target = .error fault) : fault.OfFormat := by
  unfold verify at h
  split at h
  · cases h
    exact ⟨⟨nofun, nofun⟩, nofun⟩
  · rcases hchecksum : task.checksum with _ | expected
    · rw [hchecksum] at h
      cases h
    · rw [hchecksum] at h
      dsimp only at h
      split at h <;> cases h
      exact ⟨⟨nofun, nofun⟩, nofun⟩

/-- A step of a running replay leaves it running, ends it, or meets a fault of the delta. -/
lemma step_of_running (task : Task) (hphase : p.phase = .running) :
    match step task p with
    | (.ok true, q) => q.phase = .running
    | (.ok false, _) => True
    | (.error fault, _) => fault.OfDelta := by
  rcases hrest : p.instructions.rest with _ | ⟨opcode, rest⟩
  · rw [step_of_end hphase hrest]
    rcases hverify : verify task p.target with fault | ⟨⟩
    · exact (ofFormat_of_verify hverify).1
    · trivial
  · have hentry : Raises Fault.OfDelta (executeEntry task (task.table.entry opcode)) :=
      (compositional_raises task).executeEntry _
    have hafter := hentry (afterOpcode p rest)
    rw [step_of_opcode hphase hrest]
    rcases hrun : (executeEntry task (task.table.entry opcode)).run.run (afterOpcode p rest) with
      ⟨fault | ⟨⟩, q⟩
    · rw [hrun] at hafter
      exact hafter
    · rw [hrun] at hafter
      exact hafter.trans hphase

/-- A replay that is run from its start takes no step after its last. -/
theorem ofDelta_of_run {fault : Fault} (hphase : p.phase = .running)
    (h : run task p = (.error fault, q)) : fault.OfDelta := by
  fun_induction run task p with
  | case1 p r hstep ih =>
    have hnext := step_of_running task hphase
    rw [hstep] at hnext
    exact ih hnext h
  | case2 p r hstep => cases h
  | case3 p found r hstep =>
    have hnext := step_of_running task hphase
    rw [hstep] at hnext
    cases h
    exact hnext

end Replay

end Vcdiff
