import Mathlib.Logic.Relation
import Vcdiff.Proofs.IndexedCursors
import Vcdiff.Proofs.Prelude
import Vcdiff.Proofs.Replay
import Vcdiff.Session

/-!
The sections of a window in the buffer that the window was parsed from. Each of them is a region of
the buffer, and a replay never leads the cursors out of the regions that it was given.
-/

namespace Vcdiff

/-! ### Regions -/

namespace Bytes

variable {bytes part u v : Bytes} {start : Nat}

def HasAt (bytes : Bytes) (start : Nat) (part : Bytes) : Prop :=
  ∃ before after, bytes = before ++ (part ++ after) ∧ start = before.length

lemma HasAt.left (h : bytes.HasAt start (u ++ v)) : bytes.HasAt start u := by
  obtain ⟨before, after, hbytes, hstart⟩ := h
  exact ⟨before, v ++ after, by rw [hbytes, List.append_assoc], hstart⟩

lemma HasAt.right (h : bytes.HasAt start (u ++ v)) : bytes.HasAt (start + u.length) v := by
  obtain ⟨before, after, hbytes, hstart⟩ := h
  refine ⟨before ++ u, after, ?_, by rw [hstart, List.length_append]⟩
  rw [hbytes, List.append_assoc, List.append_assoc]

lemma HasAt.le (h : bytes.HasAt start part) : start + part.length ≤ bytes.length := by
  obtain ⟨before, after, rfl, rfl⟩ := h
  simp only [List.length_append]
  omega

lemma HasAt.between (h : bytes.HasAt start part) :
    bytes.between start (start + part.length) = part := by
  obtain ⟨before, after, rfl, rfl⟩ := h
  rw [Bytes.between, Nat.add_sub_cancel_left, List.drop_left, List.take_left]

end Bytes

namespace Cursor

lemma ofRegion_of_hasAt {buffer part : Bytes} {start : Nat} (h : buffer.HasAt start part)
    (label : String) :
    ofRegion label buffer start (start + part.length) = .ok (ofSection label start part) := by
  have hle := h.le
  have hinside : ¬ ((start : Int) < 0 ∨ (buffer.length : Int) < (start + part.length : Nat) ∨
      ((start + part.length : Nat) : Int) < start) := by
    omega
  have hbetween := h.between
  rw [← Int.natCast_add, ofRegion, if_neg hinside, Int.toNat_natCast, Int.toNat_natCast, hbetween]

end Cursor

namespace Window

variable {bytes : Bytes} {offset : Nat} {w : Window}

/-- The sections stand in the bytes where the offsets of the window put them. -/
structure SectionsIn (w : Window) (bytes : Bytes) : Prop where
  data : bytes.HasAt w.dataOffset w.data
  instructions : bytes.HasAt w.instructionsOffset w.instructions
  addresses : bytes.HasAt w.addressesOffset w.addresses

lemma sectionsIn_of_parse (h : parse (.ofOffset bytes offset) = .ok w) : w.SectionsIn bytes := by
  obtain ⟨before, after, hrest, hoffset⟩ := sections_of_parse h
  obtain ⟨p, j, -, -, -, hprelude, -⟩ := exists_prelude_of_parse h
  have hle := offset_le_of_prelude hprelude
  have hdrop : bytes.drop offset
      = before ++ (w.data ++ (w.instructions ++ (w.addresses ++ after))) := hrest
  have hoffset : w.dataOffset = offset + before.length := hoffset
  have hall : bytes.HasAt w.dataOffset (w.data ++ (w.instructions ++ w.addresses)) := by
    refine ⟨bytes.take offset ++ before, after, ?_, ?_⟩
    · simp only [List.append_assoc]
      rw [← hdrop, List.take_append_drop]
    · rw [hoffset, List.length_append, List.length_take, Nat.min_eq_left hle]
  exact ⟨hall.left, hall.right.left, hall.right.right⟩

lemma addressesOffset_le {n : Nat} (h : w.stop ≤ n) : w.addressesOffset ≤ n :=
  Nat.le_trans (Nat.le_add_right _ _) h

lemma instructionsOffset_le {n : Nat} (h : w.stop ≤ n) : w.instructionsOffset ≤ n :=
  Nat.le_trans (Nat.le_add_right _ _) (addressesOffset_le h)

lemma stop_le_of_parse (h : parse (.ofOffset bytes offset) = .ok w) : w.stop ≤ bytes.length :=
  (sectionsIn_of_parse h).addresses.le

/-- The regions of a window that parses are regions of the bytes, so no check of them fails. -/
theorem ofRegion_of_parse (h : parse (.ofOffset bytes offset) = .ok w) (s : Session) :
    Cursor.ofRegion "data section" bytes w.dataOffset w.instructionsOffset
        = .ok (s.progressOf w).data ∧
      Cursor.ofRegion "instructions section" bytes w.instructionsOffset w.addressesOffset
        = .ok (s.progressOf w).instructions ∧
      Cursor.ofRegion "addresses section" bytes w.addressesOffset w.stop
        = .ok (s.progressOf w).addresses := by
  obtain ⟨hdata, hinstructions, haddresses⟩ := sectionsIn_of_parse h
  exact ⟨Cursor.ofRegion_of_hasAt hdata _, Cursor.ofRegion_of_hasAt hinstructions _,
    Cursor.ofRegion_of_hasAt haddresses _⟩

end Window

/-! ### Reads that stay in a section -/

namespace Cursor

variable {α β : Type} {buffer : Bytes} {stop : Nat}

def KeepsSpan (buffer : Bytes) (stop : Nat) (read : Read α) : Prop :=
  ∀ c a d, c.Spans buffer stop → read c = .ok (a, d) → d.Spans buffer stop

lemma keepsSpan_pure (a : α) : KeepsSpan buffer stop (pure a : Read α) := by
  intro c _ d hc h
  cases h
  exact hc

lemma keepsSpan_bind {read : Read α} {f : α → Read β} (hread : KeepsSpan buffer stop read)
    (hf : ∀ a, KeepsSpan buffer stop (f a)) : KeepsSpan buffer stop (read >>= f) := by
  intro c b e hc h
  rcases hc' : read c with fault | ⟨a, d⟩
  · rw [run_bind_of_error hc'] at h
    cases h
  · rw [run_bind_of_ok hc'] at h
    exact hf a d b e (hread c a d hc hc') h

variable (hstop : stop ≤ buffer.length)
include hstop

lemma keepsSpan_request (request : Request) : KeepsSpan buffer stop request.read := by
  intro c answer d hc h
  have hmirrors := mirrors_readAt hstop hc request
  rw [h] at hmirrors
  obtain ⟨-, hd, -⟩ := hmirrors
  exact hd

lemma keepsSpan_readByte : KeepsSpan buffer stop readByte :=
  fun c _ d hc h => keepsSpan_request hstop .byte c _ d hc (run_bind_of_ok h)

lemma keepsSpan_readBytes (n : Nat) : KeepsSpan buffer stop (readBytes n) :=
  fun c _ d hc h => keepsSpan_request hstop (.bytes n) c _ d hc (run_bind_of_ok h)

lemma keepsSpan_readVarint (limit : Nat) : KeepsSpan buffer stop (readVarint limit) :=
  fun c _ d hc h => keepsSpan_request hstop (.varint limit) c _ d hc (run_bind_of_ok h)

end Cursor

namespace AddressCache

variable {buffer : Bytes} {stop : Nat} (hstop : stop ≤ buffer.length)
include hstop

lemma keepsSpan_read (c : AddressCache) (here : Nat) :
    ∀ m, Cursor.KeepsSpan buffer stop (c.read here m)
  | .self => Cursor.keepsSpan_bind (Cursor.keepsSpan_readVarint hstop _) fun _ =>
      Cursor.keepsSpan_pure _
  | .here => Cursor.keepsSpan_bind (Cursor.keepsSpan_readVarint hstop _) fun _ =>
      Cursor.keepsSpan_pure _
  | .near _ => Cursor.keepsSpan_bind (Cursor.keepsSpan_readVarint hstop _) fun _ =>
      Cursor.keepsSpan_pure _
  | .same _ => Cursor.keepsSpan_bind (Cursor.keepsSpan_readByte hstop) fun _ =>
      Cursor.keepsSpan_pure _

lemma spans_of_decode (c : AddressCache) (here mode : Nat) {addresses : Cursor}
    (h : addresses.Spans buffer stop) :
    (c.decode here mode addresses).2.2.Spans buffer stop := by
  unfold decode
  rcases AddressMode.ofNat? c.nearSize c.sameSize mode with _ | m
  · exact h
  · dsimp only
    rcases hread : c.read here m addresses with fault | ⟨number, rest⟩
    · exact h
    · have hrest := keepsSpan_read hstop c here m addresses number rest h hread
      dsimp only
      split
      · exact hrest
      · exact hrest

end AddressCache

/-! ### The cursors of a replay -/

structure Progress.Spans (bytes : Bytes) (w : Window) (p : Progress) : Prop where
  data : p.data.Spans bytes w.instructionsOffset
  instructions : p.instructions.Spans bytes w.addressesOffset
  addresses : p.addresses.Spans bytes w.stop

lemma Session.spans_progressOf {bytes : Bytes} {offset : Nat} {w : Window} (s : Session)
    (h : Window.parse (.ofOffset bytes offset) = .ok w) : (s.progressOf w).Spans bytes w := by
  obtain ⟨hdata, hinstructions, haddresses⟩ := Window.ofRegion_of_parse h s
  exact ⟨Cursor.spans_of_ofRegion hdata, Cursor.spans_of_ofRegion hinstructions,
    Cursor.spans_of_ofRegion haddresses⟩

namespace Replay

variable {α : Type} {bytes : Bytes} {w : Window} {task : Task} {p q : Progress}

def Reaches (task : Task) : Progress → Progress → Prop :=
  Relation.ReflTransGen fun p q => (step task p).2 = q

def KeepsSpans (bytes : Bytes) (w : Window) (p q : Progress) : Prop :=
  p.Spans bytes w → q.Spans bytes w

lemma KeepsSpans.refl (p : Progress) : KeepsSpans bytes w p p := id

lemma KeepsSpans.trans (p q r : Progress) (h : KeepsSpans bytes w p q)
    (k : KeepsSpans bytes w q r) : KeepsSpans bytes w p r :=
  k ∘ h

lemma keeps_spans_readData {read : Cursor.Read α}
    (h : Cursor.KeepsSpan bytes w.instructionsOffset read) :
    Keeps (KeepsSpans bytes w) (readData read) := by
  intro p hp
  show Progress.Spans bytes w (readData read p).2
  unfold readData
  rcases hread : read p.data with fault | ⟨a, data⟩
  · exact hp
  · exact ⟨h _ _ _ hp.data hread, hp.instructions, hp.addresses⟩

lemma keeps_spans_readInstructions {read : Cursor.Read α}
    (h : Cursor.KeepsSpan bytes w.addressesOffset read) :
    Keeps (KeepsSpans bytes w) (readInstructions read) := by
  intro p hp
  show Progress.Spans bytes w (readInstructions read p).2
  unfold readInstructions
  rcases hread : read p.instructions with fault | ⟨a, instructions⟩
  · exact hp
  · exact ⟨hp.data, h _ _ _ hp.instructions hread, hp.addresses⟩

variable (hw : w.stop ≤ bytes.length)
include hw

lemma keeps_spans_copy (mode size : Nat) : Keeps (KeepsSpans bytes w) (copy task mode size) := by
  intro p hp
  have haddresses := AddressCache.spans_of_decode hw p.cache (task.source.size + p.target.size)
    mode hp.addresses
  obtain ⟨_, _, hdecode, hcopy⟩ | ⟨_, _, hdecode, hcopy⟩ := copy_cases task mode size p
  all_goals
    rw [hdecode] at haddresses
    rw [hcopy]
    exact ⟨hp.data, hp.instructions, haddresses⟩

lemma keeps_spans_execute (i : Instruction) : Keeps (KeepsSpans bytes w) (execute task i) := by
  have haddresses := Window.addressesOffset_le hw
  have hinstructions := Window.instructionsOffset_le hw
  have happend (taken : Bytes) : Keeps (KeepsSpans bytes w) (append taken) :=
    fun _ hp => ⟨hp.data, hp.instructions, hp.addresses⟩
  have hfill (byte : UInt8) (n : Nat) : Keeps (KeepsSpans bytes w) (fill byte n) :=
    fun _ hp => ⟨hp.data, hp.instructions, hp.addresses⟩
  exact keeps_execute task KeepsSpans.refl KeepsSpans.trans
    (keeps_spans_readInstructions (Cursor.keepsSpan_readVarint haddresses _))
    (fun n => keeps_spans_readData (Cursor.keepsSpan_readBytes hinstructions n))
    (keeps_spans_readData (Cursor.keepsSpan_readByte hinstructions)) happend hfill
    (keeps_spans_copy hw) i

/-- A step reads the opcode and what its two instructions ask for, all inside the sections. -/
lemma spans_of_step (hp : p.Spans bytes w) : (step task p).2.Spans bytes w := by
  have haddresses := Window.addressesOffset_le hw
  have hphase (p : Progress) (phase : Phase) : KeepsSpans bytes w p { p with phase } :=
    fun hp => ⟨hp.data, hp.instructions, hp.addresses⟩
  have hopcode (p : Progress) (opcode : UInt8) (instructions : Cursor)
      (hread : Cursor.readByte p.instructions = .ok (opcode, instructions)) :
      KeepsSpans bytes w p { p with instructions } :=
    fun hp => ⟨hp.data, Cursor.keepsSpan_readByte haddresses _ _ _ hp.instructions hread,
      hp.addresses⟩
  exact keeps_step KeepsSpans.refl KeepsSpans.trans hphase hopcode (keeps_spans_execute hw) p hp

lemma spans_of_reaches (hp : p.Spans bytes w) (h : Reaches task p q) : q.Spans bytes w := by
  induction h with
  | refl => exact hp
  | tail _ hstep ih =>
    rw [← hstep]
    exact spans_of_step hw ih

end Replay

/-- Whatever is asked of each cursor, it answers as reads by index in its own section do. -/
structure Progress.Indexed (bytes : Bytes) (w : Window) (p : Progress) : Prop where
  data : ∀ requests,
    Cursor.answersAt bytes p.data.label w.instructionsOffset requests p.data.position
      = (Cursor.answers requests p.data).map (·.mapError Stop.ofFault)
  instructions : ∀ requests,
    Cursor.answersAt bytes p.instructions.label w.addressesOffset requests p.instructions.position
      = (Cursor.answers requests p.instructions).map (·.mapError Stop.ofFault)
  addresses : ∀ requests,
    Cursor.answersAt bytes p.addresses.label w.stop requests p.addresses.position
      = (Cursor.answers requests p.addresses).map (·.mapError Stop.ofFault)

lemma Progress.Spans.indexed {bytes : Bytes} {w : Window} {p : Progress} (h : p.Spans bytes w)
    (hw : w.stop ≤ bytes.length) : p.Indexed bytes w :=
  ⟨Cursor.answersAt_of_spans (Window.instructionsOffset_le hw) h.data,
    Cursor.answersAt_of_spans (Window.addressesOffset_le hw) h.instructions,
    Cursor.answersAt_of_spans hw h.addresses⟩

/-- **Section bytes.** In the replay of a window, no cursor ever reads a byte outside of its own
section. -/
theorem Replay.indexed_of_reaches {bytes : Bytes} {offset : Nat} {w : Window} {s : Session}
    {task : Task} {p : Progress} (hparse : Window.parse (.ofOffset bytes offset) = .ok w)
    (h : Reaches task (s.progressOf w) p) : p.Indexed bytes w := by
  have hw := Window.stop_le_of_parse hparse
  exact (spans_of_reaches hw (s.spans_progressOf hparse) h).indexed hw

end Vcdiff
