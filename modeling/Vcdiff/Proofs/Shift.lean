import Vcdiff.Proofs.Incremental
import Vcdiff.Proofs.Replay
import Vcdiff.Session

/-!
The same bytes further on in a file. Where they stand shows in the places that cursors, windows
and faults name, and in nothing else: decoding at a position moved by `k` gives what decoding at
the old one gave, with every place moved by `k`.
-/

namespace Vcdiff

/-! ### Moving places -/

namespace Fault

def shift (k : Nat) : Fault → Fault
  | varintTooLarge offset limit => varintTooLarge (offset + k) limit
  | varintCutOff label offset => varintCutOff label (offset + k)
  | sectionExhausted label wanted offset left => sectionExhausted label wanted (offset + k) left
  | windowCutOff offset missing => windowCutOff (offset + k) missing
  | fault => fault

@[simp] lemma kind_shift (k : Nat) (fault : Fault) : (fault.shift k).kind = fault.kind := by
  cases fault <;> rfl

end Fault

def Halt.shift (k : Nat) : Halt → Halt
  | .incomplete missing => .incomplete missing
  | .invalid fault => .invalid (fault.shift k)

def Input.shift (k : Nat) (i : Input) : Input := { i with position := i.position + k }

lemma Input.drop_shift (k n : Nat) (i : Input) : (i.shift k).drop n = (i.drop n).shift k := by
  simp only [Input.shift, Input.drop, Nat.add_right_comm]

def Cursor.shift (k : Nat) (c : Cursor) : Cursor :=
  { c with start := c.start + k, position := c.position + k }

def Progress.shift (k : Nat) (p : Progress) : Progress :=
  { p with
    data := p.data.shift k
    instructions := p.instructions.shift k
    addresses := p.addresses.shift k }

namespace Window

def shift (k : Nat) (w : Window) : Window :=
  { w with offset := w.offset + k, dataOffset := w.dataOffset + k }

lemma stop_shift (k : Nat) (w : Window) : (w.shift k).stop = w.stop + k := by
  simp only [shift, stop, addressesOffset, instructionsOffset]
  omega

@[simp] lemma size_shift (k : Nat) (w : Window) : (w.shift k).size = w.size := by
  rw [size, stop_shift, size]
  exact Nat.add_sub_add_right _ _ _

end Window

/-! ### Cursors -/

namespace Cursor

variable {α β : Type}

/-- The read does not depend on where its section stands. -/
def Movable (read : Read α) : Prop :=
  ∀ k c, read (c.shift k) = match read c with
    | .ok (a, d) => .ok (a, d.shift k)
    | .error fault => .error (fault.shift k)

lemma movable_pure (a : α) : Movable (pure a : Read α) := fun _ _ => rfl

lemma movable_bind {read : Read α} {f : α → Read β} (hr : Movable read)
    (hf : ∀ a, Movable (f a)) : Movable (read >>= f) := by
  intro k c
  show Except.bind (read (c.shift k)) (fun x => f x.1 x.2)
    = match Except.bind (read c) (fun x => f x.1 x.2) with
      | .ok (a, d) => .ok (a, d.shift k)
      | .error fault => .error (fault.shift k)
  rw [hr k c]
  rcases read c with fault | ⟨a, d⟩
  · rfl
  · exact hf a k d

lemma movable_readByte : Movable readByte := by
  rintro k ⟨label, start, position, rest⟩
  rcases rest with _ | ⟨b, rest⟩
  · rfl
  · simp only [readByte, shift, Nat.add_right_comm]

lemma movable_readBytes (n : Nat) : Movable (readBytes n) := by
  intro k c
  rcases Nat.lt_or_ge c.rest.length n with hlt | hle
  · rw [readBytes_of_lt hlt, readBytes_of_lt (c := c.shift k) hlt]
    rfl
  · rw [readBytes_of_le hle, readBytes_of_le (c := c.shift k) hle]
    simp only [shift, Nat.add_right_comm]

lemma movable_readVarint (limit : Nat) : Movable (readVarint limit) := by
  intro k c
  have hrest : (c.shift k).rest = c.rest := rfl
  rcases hs : Varint.scan limit c.rest with ⟨n, size, rest⟩ | _ | _
  · simp only [readVarint, hs, shift, Nat.add_right_comm]
  · simp only [readVarint, hrest, hs]
    rfl
  · simp only [readVarint, hrest, hs]
    rfl

end Cursor

namespace AddressCache

lemma movable_read (c : AddressCache) (here : Nat) :
    ∀ m, Cursor.Movable (c.read here m)
  | .self => Cursor.movable_bind (Cursor.movable_readVarint _) fun _ => Cursor.movable_pure _
  | .here => Cursor.movable_bind (Cursor.movable_readVarint _) fun _ => Cursor.movable_pure _
  | .near _ => Cursor.movable_bind (Cursor.movable_readVarint _) fun _ => Cursor.movable_pure _
  | .same _ => Cursor.movable_bind Cursor.movable_readByte fun _ => Cursor.movable_pure _

lemma decode_shift (c : AddressCache) (here mode k : Nat) (addresses : Cursor) :
    c.decode here mode (addresses.shift k)
      = ((c.decode here mode addresses).1.mapError (·.shift k),
        (c.decode here mode addresses).2.1, (c.decode here mode addresses).2.2.shift k) := by
  unfold decode
  rcases AddressMode.ofNat? c.nearSize c.sameSize mode with _ | m
  · rfl
  · dsimp only
    rw [movable_read c here m k addresses]
    rcases c.read here m addresses with fault | ⟨number, rest⟩
    · rfl
    · dsimp only
      split <;> rfl

end AddressCache

/-! ### Replay -/

namespace Replay

variable {α β : Type} (task : Task)

def Movable (x : Action α) : Prop :=
  ∀ k p, x.run.run (p.shift k) = ((x.run.run p).1.mapError (·.shift k), (x.run.run p).2.shift k)

lemma movable_pure (a : α) : Movable (pure a : Action α) := fun _ _ => rfl

lemma movable_bind {x : Action α} {f : α → Action β} (hx : Movable x)
    (hf : ∀ a, Movable (f a)) : Movable (x >>= f) := by
  intro k p
  rw [bind_apply, bind_apply, hx k p]
  rcases x.run.run p with ⟨fault | a, q⟩
  · rfl
  · exact hf a k q

lemma movable_readData {read : Cursor.Read α} (h : Cursor.Movable read) :
    Movable (readData read) := by
  intro k p
  show readData read (p.shift k)
    = ((readData read p).1.mapError (·.shift k), (readData read p).2.shift k)
  have hd : read (p.shift k).data = _ := h k p.data
  unfold readData
  rw [hd]
  rcases read p.data with fault | ⟨a, data⟩ <;> rfl

lemma movable_readInstructions {read : Cursor.Read α} (h : Cursor.Movable read) :
    Movable (readInstructions read) := by
  intro k p
  show readInstructions read (p.shift k)
    = ((readInstructions read p).1.mapError (·.shift k), (readInstructions read p).2.shift k)
  have hi : read (p.shift k).instructions = _ := h k p.instructions
  unfold readInstructions
  rw [hi]
  rcases read p.instructions with fault | ⟨a, instructions⟩ <;> rfl

lemma movable_copy (mode size : Nat) : Movable (copy task mode size) := by
  intro k p
  show copy task mode size (p.shift k)
    = ((copy task mode size p).1.mapError (·.shift k), (copy task mode size p).2.shift k)
  have hd := p.cache.decode_shift (task.source.size + p.target.size) mode k p.addresses
  simp only [copy, Progress.shift, hd]
  rcases p.cache.decode (task.source.size + p.target.size) mode p.addresses with
    ⟨fault | address, cache, addresses⟩ <;> rfl

lemma movable_checkRoom (size : Nat) : Movable (checkRoom task size) := by
  intro k p
  show checkRoom task size (p.shift k)
    = ((checkRoom task size p).1.mapError (·.shift k), (checkRoom task size p).2.shift k)
  have htarget : (p.shift k).target = p.target := rfl
  unfold checkRoom
  rw [htarget]
  by_cases h : task.targetLength - p.target.size < size
  · rw [if_pos h, if_pos h]
    rfl
  · rw [if_neg h, if_neg h]
    rfl

lemma compositional_movable : Compositional task Movable where
  ofPure := movable_pure
  ofBind := movable_bind
  readSize := movable_readInstructions (Cursor.movable_readVarint _)
  readBytes n := movable_readData (Cursor.movable_readBytes n)
  readByte := movable_readData Cursor.movable_readByte
  append _ _ _ := rfl
  fill _ _ _ _ := rfl
  checkRoom := movable_checkRoom task
  copy := movable_copy task

/-- The faults of the last check name no place. -/
lemma verify_shift (k : Nat) (target : Array UInt8) :
    (verify task target).mapError (·.shift k) = verify task target := by
  unfold verify
  by_cases hsize : target.size ≠ task.targetLength
  · rw [if_pos hsize]
    rfl
  · rw [if_neg hsize]
    rcases task.checksum with _ | expected
    · rfl
    · dsimp only
      split <;> rfl

lemma step_shift (k : Nat) (p : Progress) :
    step task (p.shift k)
      = ((step task p).1.mapError (·.shift k), (step task p).2.shift k) := by
  have hphase' : (p.shift k).phase = p.phase := rfl
  have hrest' : (p.shift k).instructions.rest = p.instructions.rest := rfl
  rcases hphase : p.phase with _ | _ | _
  · rcases hrest : p.instructions.rest with _ | ⟨opcode, rest⟩
    · have hverify := verify_shift task k p.target
      have htarget : (p.shift k).target = p.target := rfl
      rw [step_of_end hphase hrest, step_of_end (hphase'.trans hphase) (hrest'.trans hrest),
        htarget]
      rcases hv : verify task p.target with fault | ⟨⟩
      · have hfault : fault.shift k = fault := by simpa [hv, Except.mapError] using hverify
        simp only [Except.mapError, hfault]
        rfl
      · rfl
    · have hentry := (compositional_movable task).executeEntry (task.table.entry opcode) k
        (afterOpcode p rest)
      have hafter : afterOpcode (p.shift k) rest = (afterOpcode p rest).shift k := by
        simp only [afterOpcode, Progress.shift, Cursor.shift, Nat.add_right_comm]
      rw [step_of_opcode hphase hrest, step_of_opcode (hphase'.trans hphase) (hrest'.trans hrest),
        hafter, hentry]
      rcases (executeEntry task (task.table.entry opcode)).run.run (afterOpcode p rest) with
        ⟨fault | ⟨⟩, q⟩ <;> rfl
  · rw [step_of_done hphase, step_of_done (hphase'.trans hphase)]
    rfl
  · rw [step_of_faulted hphase, step_of_faulted (hphase'.trans hphase)]
    rfl

theorem run_shift (k : Nat) (p : Progress) :
    run task (p.shift k) = ((run task p).1.mapError (·.shift k), (run task p).2.shift k) := by
  fun_induction run task p with
  | case1 p q h ih =>
    have hstep := step_shift task k p
    rw [h] at hstep
    rw [run_of_more hstep, ih]
  | case2 p q h =>
    have hstep := step_shift task k p
    rw [h] at hstep
    exact run_of_done hstep
  | case3 p fault q h =>
    have hstep := step_shift task k p
    rw [h] at hstep
    exact run_of_fault hstep

end Replay

/-! ### Parsing -/

namespace Parser

variable {α β γ δ : Type}

/-- At a position moved by `k`, `q` gives what `p` gives at the old one, with the places in it
moved by `v`. -/
def Moves (k : Nat) (v : α → β) (p : Parser α) (q : Parser β) : Prop :=
  ∀ i, q (i.shift k) = match p i with
    | .ok (a, j) => .ok (v a, j.shift k)
    | .error halt => .error (halt.shift k)

variable {k : Nat} {v : α → β} {p : Parser α} {q : Parser β}

lemma moves_pure (k : Nat) (v : α → β) (a : α) : Moves k v (pure a) (pure (v a)) := fun _ => rfl

lemma moves_bind {w : γ → δ} {f : α → Parser γ} {g : β → Parser δ} (hp : Moves k v p q)
    (hf : ∀ a, Moves k w (f a) (g (v a))) : Moves k w (p >>= f) (q >>= g) := by
  intro i
  have hi := hp i
  rcases hpi : p i with halt | ⟨a, j⟩
  · rw [hpi] at hi
    rw [bind_of_error hi, bind_of_error hpi]
  · rw [hpi] at hi
    rw [bind_of_ok hi, bind_of_ok hpi]
    exact hf a j

lemma moves_map {w : γ → δ} {f : α → γ} {g : β → δ} (hp : Moves k v p q)
    (hf : ∀ a, g (v a) = w (f a)) : Moves k w (f <$> p) (g <$> q) := by
  rw [← bind_pure_comp, ← bind_pure_comp]
  refine moves_bind hp fun a => ?_
  rw [hf]
  exact moves_pure k w (f a)

lemma moves_position (k : Nat) : Moves k (· + k) position position := fun _ => rfl

lemma moves_ahead (k : Nat) : Moves k id ahead ahead := fun _ => rfl

lemma moves_failIf (c : Prop) [Decidable c] {fault : Fault} (h : fault.shift k = fault) :
    Moves k id (failIf c fault) (failIf c fault) := by
  intro i
  by_cases hc : c
  · simp only [failIf, if_pos hc, Halt.shift, h]
  · simp only [failIf, if_neg hc, id]

lemma moves_byte (k unit : Nat) : Moves k id (byte unit) (byte unit) := by
  rintro ⟨position, rest, gap⟩
  rcases rest with _ | ⟨b, rest⟩
  · rfl
  · show byte unit ⟨position + k, b :: rest, gap⟩ = _
    rw [byte_cons, byte_cons]
    simp only [Input.shift, id, Nat.add_right_comm]

lemma moves_take (k n : Nat) : Moves k id (take n) (take n) := by
  intro i
  rcases Nat.lt_or_ge i.rest.length n with hlt | hle
  · rw [take_of_lt hlt, take_of_lt (i := i.shift k) hlt]
    rfl
  · rw [take_of_le hle, take_of_le (i := i.shift k) hle, Input.drop_shift]
    rfl

lemma moves_varint (k : Nat) : Moves k id varint varint := by
  intro i
  rcases hs : Varint.scan Varint.maxValue i.rest with ⟨n, size, rest⟩ | _ | _
  · rw [varint_of_value hs, varint_of_value (i := i.shift k) hs]
    simp only [Input.shift, id, Nat.add_right_comm]
  · rw [varint_of_tooLarge hs, varint_of_tooLarge (i := i.shift k) hs]
    rfl
  · rw [varint_of_cutOff hs, varint_of_cutOff (i := i.shift k) hs]
    rfl

lemma moves_orFault (hp : Moves k v p q) {fault : Fault} (h : fault.shift k = fault) :
    Moves k v (p.orFault fault) (q.orFault fault) := by
  intro i
  have hi := hp i
  rcases hpi : p i with (missing | found) | ⟨a, j⟩ <;> rw [hpi] at hi
  · simp only [orFault, hi, hpi, Halt.shift, h]
  · simp only [orFault, hi, hpi, Halt.shift]
  · simp only [orFault, hi, hpi]

lemma moves_within (hp : Moves k v p q) (start : Nat) (bytes : Bytes) :
    Moves k v (within start bytes p) (within (start + k) bytes q) := by
  intro i
  have hi : q (.ofBytes (start + k) bytes) = _ := hp (.ofBytes start bytes)
  rcases hb : p (.ofBytes start bytes) with halt | ⟨a, j⟩ <;> rw [hb] at hi
  · rw [within_of_error _ hi, within_of_error _ hb]
  · rw [within_of_ok _ hi, within_of_ok _ hb]

end Parser

open Vcdiff.Parser

namespace Window

lemma moves_indicatorByte (k : Nat) : Moves k id indicatorByte indicatorByte :=
  moves_bind (moves_byte k 1) fun _ => moves_bind (moves_failIf _ rfl) fun _ =>
    moves_bind (moves_failIf _ rfl) fun _ => moves_pure k id _

lemma moves_segmentPart (k : Nat) : ∀ origin, Moves k id (segmentPart origin) (segmentPart origin)
  | none => moves_pure k id none
  | some _ => moves_bind (moves_varint k) fun _ => moves_bind (moves_varint k) fun _ =>
      moves_pure k id _

lemma moves_checksumPart (k : Nat) (indicator : UInt8) :
    Moves k id (checksumPart indicator) (checksumPart indicator) := by
  unfold checksumPart
  split
  · exact moves_pure k id none
  · exact moves_map (moves_take k 4) fun _ => rfl

lemma moves_lengthsPart (k : Nat) (indicator : UInt8) (deltaLength : Nat) :
    Moves k id (lengthsPart indicator deltaLength) (lengthsPart indicator deltaLength) :=
  moves_bind (moves_orFault (moves_varint k) rfl) fun _ =>
    moves_bind (moves_orFault (moves_byte k 1) rfl) fun _ =>
    moves_bind (moves_failIf _ rfl) fun _ => moves_bind (moves_failIf _ rfl) fun _ =>
    moves_bind (moves_orFault (moves_varint k) rfl) fun _ =>
    moves_bind (moves_orFault (moves_varint k) rfl) fun _ =>
    moves_bind (moves_orFault (moves_varint k) rfl) fun _ =>
    moves_bind (moves_orFault (moves_checksumPart k indicator) rfl) fun _ => moves_pure k id _

lemma moves_deltaPart (k offset : Nat) (indicator : UInt8) (segment : Option Segment)
    (deltaLength : Nat) :
    Moves k (shift k) (deltaPart offset indicator segment deltaLength)
      (deltaPart (offset + k) indicator segment deltaLength) :=
  moves_bind (moves_lengthsPart k indicator deltaLength) fun _ =>
    moves_bind (moves_position k) fun _ => moves_bind (moves_ahead k) fun _ =>
    moves_bind (moves_failIf _ rfl) fun _ => moves_pure k (shift k) _

lemma parser_moves (k : Nat) : Moves k (shift k) parser parser :=
  moves_bind (moves_position k) fun _ => moves_bind (moves_indicatorByte k) fun _ =>
    moves_bind (moves_segmentPart k _) fun _ => moves_bind (moves_varint k) fun _ =>
    moves_bind (moves_position k) fun _ => moves_bind (moves_take k _) fun _ =>
    moves_within (moves_deltaPart k _ _ _ _) _ _

lemma parse_shift (k : Nat) (i : Input) :
    parse (i.shift k) = match parse i with
      | .ok w => .ok (w.shift k)
      | .error halt => .error (halt.shift k) := by
  have hi := parser_moves k i
  rcases hp : parser i with halt | ⟨w, j⟩ <;> rw [hp] at hi
  · rw [parse_eq_error_iff.2 hi, parse_eq_error_iff.2 hp]
  · rw [parse_eq_ok_iff.2 ⟨_, hi⟩, parse_eq_ok_iff.2 ⟨_, hp⟩]

end Window

/-! ### Sessions -/

namespace Session

variable (s : Session)

lemma progressOf_shift (k : Nat) (w : Window) :
    s.progressOf (w.shift k) = (s.progressOf w).shift k := by
  have hi : (w.shift k).instructionsOffset = w.instructionsOffset + k := by
    simp only [Window.shift, Window.instructionsOffset]
    omega
  have ha : (w.shift k).addressesOffset = w.addressesOffset + k := by
    simp only [Window.addressesOffset, hi]
    simp only [Window.shift]
    omega
  simp only [progressOf, Progress.start, Progress.shift, hi, ha]
  rfl

lemma shift_of_checkEncoded {l : Limits} {size : Int} {fault : Fault}
    (h : l.checkEncoded size = .error fault) (k : Nat) : fault.shift k = fault := by
  unfold Limits.checkEncoded at h
  split at h <;> cases h
  rfl

lemma shift_of_checkTarget {l : Limits} {written length : Nat} {fault : Fault}
    (h : l.checkTarget written length = .error fault) (k : Nat) : fault.shift k = fault := by
  unfold Limits.checkTarget at h
  split at h
  · cases h
    rfl
  · split at h
    · cases h
      rfl
    · split at h <;> cases h
      rfl

lemma shift_of_segmentBytes {segment : Option Segment} {fault : Fault}
    (h : s.segmentBytes segment = .error fault) (k : Nat) : fault.shift k = fault := by
  rcases segment with _ | ⟨_ | _, offset, length⟩
  · cases h
  · simp only [segmentBytes] at h
    split at h <;> cases h
    rfl
  · simp only [segmentBytes] at h
    split at h <;> cases h
    rfl

/-- The limits and the segment of a window are checked without regard to where it stands. -/
lemma shift_of_sourceOf {w : Window} {fault : Fault} (h : s.sourceOf w = .error fault) (k : Nat) :
    fault.shift k = fault := by
  unfold sourceOf at h
  rcases he : s.limits.checkEncoded w.size with f | ⟨⟩ <;> rw [he] at h
  · cases h
    exact shift_of_checkEncoded he k
  · rcases ht : s.limits.checkTarget s.output.size w.targetLength with f | ⟨⟩ <;> rw [ht] at h
    · cases h
      exact shift_of_checkTarget ht k
    · exact shift_of_segmentBytes s h k

lemma sourceOf_shift (k : Nat) (w : Window) : s.sourceOf (w.shift k) = s.sourceOf w := by
  simp only [sourceOf, Window.size_shift]
  rfl

lemma openWindow_shift (k : Nat) (i : Input) :
    s.openWindow (i.shift k) = match s.openWindow i with
      | .ok (w, source) => .ok (w.shift k, source)
      | .error halt => .error (halt.shift k) := by
  unfold openWindow
  rw [Window.parse_shift]
  rcases Window.parse i with (missing | fault) | w
  · have havailable : (i.shift k).available = i.available := rfl
    dsimp only [Halt.shift]
    rw [havailable]
    rcases hc : s.limits.checkEncoded (i.available + missing) with fault | ⟨⟩
    · dsimp only
      rw [shift_of_checkEncoded hc]
    · rfl
  · rfl
  · dsimp only
    rw [sourceOf_shift]
    rcases hs : s.sourceOf w with fault | source
    · dsimp only [Halt.shift]
      rw [shift_of_sourceOf s hs]
    · rfl

/-- A window decodes alike wherever it stands. -/
theorem decodeWindow_shift (k : Nat) (i : Input) :
    s.decodeWindow (i.shift k)
      = ((s.decodeWindow i).1.mapError (·.shift k), (s.decodeWindow i).2) := by
  unfold decodeWindow
  rw [openWindow_shift]
  by_cases hheader : s.header.isNone
  · rw [if_pos hheader, if_pos hheader]
    rfl
  · rw [if_neg hheader, if_neg hheader]
    rcases s.openWindow i with halt | ⟨w, source⟩
    · rfl
    · have hrun := Replay.run_shift (s.taskOf w source) k (s.progressOf w)
      have htask : s.taskOf (w.shift k) source = s.taskOf w source := rfl
      dsimp only
      rw [htask, progressOf_shift, hrun]
      rcases Replay.run (s.taskOf w source) (s.progressOf w) with ⟨fault | target, progress⟩
      · rfl
      · simp only [Except.mapError, Window.size_shift]
        rfl

end Session

end Vcdiff
