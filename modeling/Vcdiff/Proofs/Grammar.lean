import Mathlib.Data.FinEnum
import Vcdiff.Proofs.Forms
import Vcdiff.Proofs.Sections

/-!
The grammar of file headers and windows. `Proofs/Forms` shows that what is written in a form is
read as what was written; here is the converse, that whatever is read was written in a form. So
each parser accepts its grammar and nothing else.
-/

namespace Vcdiff

/-! ### What a parser takes -/

namespace Parser

variable {α β : Type}

/-- The bytes that the parser takes are of the form that belongs to what it gives. -/
def Conforms (p : Parser α) (form : α → Bytes → Prop) : Prop :=
  ∀ i a j, p i = .ok (a, j) →
    ∃ used, i.rest = used ++ j.rest ∧ j.position = i.position + used.length ∧ form a used

/-- Bytes of one form and then of another, which may depend on what the first say. -/
def Chained (form : α → Bytes → Prop) (next : α → β → Bytes → Prop) (b : β) (bytes : Bytes) :
    Prop :=
  ∃ a u v, bytes = u ++ v ∧ form a u ∧ next a b v

section Conforms

variable {p : Parser α} {f : α → Parser β} {form : α → Bytes → Prop}
  {next : α → β → Bytes → Prop}

lemma Conforms.mono {weaker : α → Bytes → Prop} (hp : Conforms p form)
    (h : ∀ a used, form a used → weaker a used) : Conforms p weaker := by
  intro i a j hok
  obtain ⟨used, hrest, hpos, hform⟩ := hp i a j hok
  exact ⟨used, hrest, hpos, h a used hform⟩

lemma conforms_pure (a : α) : Conforms (pure a : Parser α) fun b used => used = [] ∧ b = a := by
  intro i _ _ h
  cases h
  exact ⟨[], rfl, rfl, rfl, rfl⟩

lemma conforms_bind (hp : Conforms p form) (hf : ∀ a, Conforms (f a) (next a)) :
    Conforms (p >>= f) (Chained form next) := by
  intro i b k h
  obtain ⟨a, j, h1, h2⟩ := bind_eq_ok_iff.1 h
  obtain ⟨u, hu, hpos, hform⟩ := hp i a j h1
  obtain ⟨v, hv, hpos', hnext⟩ := hf a j b k h2
  refine ⟨u ++ v, by rw [hu, hv, List.append_assoc], ?_, a, u, v, rfl, hform, hnext⟩
  rw [hpos', hpos, List.length_append, Nat.add_assoc]

/-- A parser that takes nothing may stand after any other. -/
lemma conforms_bind_pure (hp : Conforms p form) (g : α → β) :
    Conforms (p >>= fun a => pure (g a)) fun b used => ∃ a, form a used ∧ b = g a := by
  refine Conforms.mono (conforms_bind hp fun a => conforms_pure (g a)) ?_
  rintro b _ ⟨a, u, v, rfl, hform, rfl, rfl⟩
  exact ⟨a, by rwa [List.append_nil], rfl⟩

lemma conforms_map (hp : Conforms p form) (g : α → β) :
    Conforms (g <$> p) fun b used => ∃ a, form a used ∧ b = g a := by
  rw [← bind_pure_comp]
  exact conforms_bind_pure hp g

lemma conforms_failIf_bind {c : Prop} [Decidable c] {fault : Fault} {g : Unit → Parser β}
    {form : β → Bytes → Prop} (hg : ∀ u, Conforms (g u) form) :
    Conforms (failIf c fault >>= g) fun b used => ¬ c ∧ form b used := by
  intro i b j h
  obtain ⟨_, _, h1, h⟩ := bind_eq_ok_iff.1 h
  obtain ⟨hc, h1⟩ := failIf_eq_ok_iff.1 h1
  cases h1
  obtain ⟨used, hrest, hpos, hform⟩ := hg () i b j h
  exact ⟨used, hrest, hpos, hc, hform⟩

lemma conforms_need_bind {n : Nat} {g : Unit → Parser β} {form : β → Bytes → Prop}
    (hg : ∀ u, Conforms (g u) form) : Conforms (need n >>= g) form := by
  intro i b j h
  obtain ⟨_, _, h1, h⟩ := bind_eq_ok_iff.1 h
  obtain ⟨-, h1⟩ := need_eq_ok_iff.1 h1
  cases h1
  exact hg () i b j h

lemma conforms_byte (unit : Nat) : Conforms (byte unit) fun b used => used = [b] := by
  rintro ⟨position, rest, gap⟩ b j h
  rcases rest with _ | ⟨c, rest⟩
  · cases h
  · rw [byte_cons] at h
    cases h
    exact ⟨[b], rfl, rfl, rfl⟩

lemma conforms_take (n : Nat) :
    Conforms (take n) fun bytes used => used = bytes ∧ bytes.length = n := by
  intro i bytes j h
  obtain ⟨hlength, hpos⟩ := length_of_take h
  exact ⟨bytes, rest_of_take h, by rw [hlength, hpos], rfl, hlength⟩

lemma conforms_varint : Conforms varint Varint.Written := by
  intro i n j h
  rcases hs : Varint.scan Varint.maxValue i.rest with ⟨m, size, rest⟩ | _ | _
  · rw [varint_of_value hs] at h
    cases h
    obtain ⟨used, hrest, rfl, hwritten⟩ := Varint.written_of_scan hs
    exact ⟨used, hrest, rfl, hwritten⟩
  · rw [varint_of_tooLarge hs] at h
    cases h
  · rw [varint_of_cutOff hs] at h
    cases h

lemma conforms_orFault (hp : Conforms p form) (fault : Fault) :
    Conforms (p.orFault fault) form := by
  intro i a j h
  unfold orFault at h
  split at h
  · cases h
  · exact hp i a j h

/-- A part that is there or not, as the condition says. -/
lemma conforms_optional {q : Parser (Option α)} {form : Option α → Bytes → Prop} (c : Prop)
    [Decidable c] (hnone : form none [])
    (hq : Conforms q fun o used => ∃ a, form (some a) used ∧ o = some a) :
    Conforms (if c then pure none else q) fun o used => form o used ∧ o.isSome = decide (¬ c) := by
  split
  · rename_i hc
    refine (conforms_pure none).mono ?_
    rintro _ _ ⟨rfl, rfl⟩
    exact ⟨hnone, by simp [hc]⟩
  · rename_i hc
    refine hq.mono ?_
    rintro _ _ ⟨a, hform, rfl⟩
    exact ⟨hform, by simp [hc]⟩

end Conforms

end Parser

open Vcdiff.Parser

/-! ### Windows -/

namespace Window

/-- The indicator has none but known bits, does not announce two segments, and announces just the
parts that there are. -/
structure Announces (indicator : UInt8) (origin : Option Origin) (checked : Bool) : Prop where
  known : indicator &&& ~~~ 7 = 0
  single : ¬ (indicator &&& 1 ≠ 0 ∧ indicator &&& 2 ≠ 0)
  dictionary : indicator &&& 1 ≠ 0 ↔ origin = some .dictionary
  target : indicator &&& 2 ≠ 0 ↔ origin = some .target
  checksum : indicator &&& 4 ≠ 0 ↔ checked = true

/-- The bytes write the window: its indicator, the segment if there is one, the length of the delta
encoding, and as many bytes as that says. -/
inductive Spelled (w : Window) : Bytes → Prop
  | mk {indicator : UInt8} {segment deltaLength lengths : Bytes}
    (hindicator : Announces indicator (w.segment.map Segment.origin) w.checksum.isSome)
    (hsegment : SegmentForm w.segment segment)
    (hdeltaLength : Varint.Written w.deltaLength deltaLength)
    (hlengths : LengthsForm
      ⟨w.targetLength, w.data.length, w.instructions.length, w.addresses.length, w.checksum⟩
      lengths)
    (hfill : (lengths ++ (w.data ++ w.instructions ++ w.addresses)).length = w.deltaLength)
    (hdataOffset : w.dataOffset
      = w.offset + 1 + segment.length + deltaLength.length + lengths.length) :
    Spelled w ([indicator] ++ (segment ++ (deltaLength
      ++ (lengths ++ (w.data ++ w.instructions ++ w.addresses)))))

section Spelled

variable {indicator : UInt8} {origin : Option Origin} {checked : Bool} {i j : Input} {w : Window}
  {written rest : Bytes}

lemma announces_indicatorOf (origin : Option Origin) (checked : Bool) :
    Announces (indicatorOf origin checked) origin checked := by
  rcases origin with _ | _ | _ <;> cases checked <;> constructor <;> decide

/-- An indicator that the parser lets pass announces what the parser then looks for. -/
lemma announces_of_passed (hknown : ¬ 7 < indicator)
    (hsingle : ¬ (indicator &&& Origin.dictionary.bit ≠ 0 ∧
      indicator &&& Origin.target.bit ≠ 0)) :
    Announces indicator (originOf indicator) (decide (indicator &&& checksumBit ≠ 0)) := by
  have hbits : ∀ b : UInt8, ¬ 7 < b →
      ¬ (b &&& Origin.dictionary.bit ≠ 0 ∧ b &&& Origin.target.bit ≠ 0) →
      b &&& ~~~ 7 = 0 ∧ (b &&& 1 ≠ 0 ↔ originOf b = some .dictionary) ∧
        (b &&& 2 ≠ 0 ↔ originOf b = some .target) := by
    decide +kernel
  obtain ⟨hzero, hdictionary, htarget⟩ := hbits indicator hknown hsingle
  exact ⟨hzero, hsingle, hdictionary, htarget, decide_eq_true_iff.symm⟩

/-- What an indicator announces determines it. -/
lemma Announces.eq_indicatorOf (h : Announces indicator origin checked) :
    indicator = indicatorOf origin checked := by
  have hbits : ∀ b : UInt8, b &&& ~~~ 7 = 0 →
      b = (if b &&& 1 ≠ 0 then 1 else 0) ||| (if b &&& 2 ≠ 0 then 2 else 0)
        ||| (if b &&& 4 ≠ 0 then 4 else 0) := by
    decide +kernel
  calc
    indicator = (if indicator &&& 1 ≠ 0 then 1 else 0) ||| (if indicator &&& 2 ≠ 0 then 2 else 0)
        ||| (if indicator &&& 4 ≠ 0 then 4 else 0) := hbits indicator h.known
    _ = (if origin = some .dictionary then 1 else 0) ||| (if origin = some .target then 2 else 0)
        ||| (if checked = true then 4 else 0) := by
      simp only [h.dictionary, h.target, h.checksum]
    _ = indicatorOf origin checked := by
      rcases origin with _ | _ | _ <;> cases checked <;> rfl

lemma conforms_indicatorByte : Conforms indicatorByte fun b used =>
    used = [b] ∧ Announces b (originOf b) (decide (b &&& checksumBit ≠ 0)) := by
  refine Conforms.mono (conforms_bind (conforms_byte 1) fun _ => conforms_failIf_bind fun _ =>
    conforms_failIf_bind fun _ => conforms_pure _) ?_
  rintro _ _ ⟨b, _, _, rfl, rfl, hknown, hsingle, rfl, rfl⟩
  exact ⟨rfl, announces_of_passed hknown hsingle⟩

lemma conforms_segmentPart : ∀ origin, Conforms (segmentPart origin) fun segment used =>
    SegmentForm segment used ∧ segment.map Segment.origin = origin
  | none => (conforms_pure none).mono (by
      rintro _ _ ⟨rfl, rfl⟩
      exact ⟨.none, rfl⟩)
  | some origin => (conforms_bind conforms_varint fun _ =>
      conforms_bind_pure conforms_varint _).mono (by
        rintro _ _ ⟨length, u, v, rfl, hlength, offset, hoffset, rfl⟩
        exact ⟨@SegmentForm.some ⟨origin, offset, length⟩ u v hlength hoffset, rfl⟩)

lemma conforms_checksumPart (indicator : UInt8) :
    Conforms (checksumPart indicator) fun checksum used =>
      ChecksumForm checksum used ∧ checksum.isSome = decide (indicator &&& checksumBit ≠ 0) := by
  refine conforms_optional _ .none ((conforms_map (conforms_take 4) _).mono ?_)
  rintro _ _ ⟨bytes, ⟨rfl, hlength⟩, rfl⟩
  exact ⟨_, .some hlength rfl, rfl⟩

lemma conforms_lengthsPart (indicator : UInt8) (deltaLength : Nat) :
    Conforms (lengthsPart indicator deltaLength) fun n used =>
      LengthsForm n used ∧ n.checksum.isSome = decide (indicator &&& checksumBit ≠ 0) := by
  refine Conforms.mono (conforms_bind (conforms_orFault conforms_varint _) fun _ =>
    conforms_bind (conforms_orFault (conforms_byte 1) _) fun _ =>
    conforms_failIf_bind fun _ => conforms_failIf_bind fun _ =>
    conforms_bind (conforms_orFault conforms_varint _) fun _ =>
    conforms_bind (conforms_orFault conforms_varint _) fun _ =>
    conforms_bind (conforms_orFault conforms_varint _) fun _ =>
    conforms_bind_pure (conforms_orFault (conforms_checksumPart indicator) _) _) ?_
  rintro _ _ ⟨target, _, _, rfl, htarget, compression, _, _, rfl, rfl, -, hzero,
    data, _, _, rfl, hdata, instructions, _, _, rfl, hinstructions,
    addresses, _, _, rfl, haddresses, checksum, ⟨hchecksum, hset⟩, rfl⟩
  rw [Decidable.not_not.1 hzero]
  exact ⟨.mk htarget hdata hinstructions haddresses hchecksum, hset⟩

/-- All of the delta encoding is lengths and sections, and nothing else. -/
lemma fill_of_deltaPart {offset start deltaLength : Nat} {segment : Option Segment}
    {delta : Bytes}
    (h : deltaPart offset indicator segment deltaLength (.ofBytes start delta) = .ok (w, j)) :
    (w.offset = offset ∧ w.segment = segment ∧ w.deltaLength = deltaLength) ∧
      w.checksum.isSome = decide (indicator &&& checksumBit ≠ 0) ∧
      ∃ lengths, delta = lengths ++ (w.data ++ w.instructions ++ w.addresses) ∧
        w.dataOffset = start + lengths.length ∧
        LengthsForm
          ⟨w.targetLength, w.data.length, w.instructions.length, w.addresses.length, w.checksum⟩
          lengths := by
  obtain ⟨n, hlengths, hfill, rfl⟩ := lengths_of_deltaPart h
  obtain ⟨lengths, hdelta, hpos, hform, hset⟩ := conforms_lengthsPart _ _ _ _ _ hlengths
  have hdata : (j.rest.take n.data).length = n.data := by
    rw [List.length_take]
    omega
  have hinstructions : ((j.rest.drop n.data).take n.instructions).length = n.instructions := by
    rw [List.length_take, List.length_drop]
    omega
  have haddresses : (j.rest.drop (n.data + n.instructions)).length = n.addresses := by
    rw [List.length_drop]
    omega
  refine ⟨⟨rfl, rfl, rfl⟩, hset, lengths, ?_, hpos, ?_⟩
  · rw [← List.drop_drop, List.append_assoc, List.take_append_drop, List.take_append_drop]
    exact hdelta
  · dsimp only
    rwa [hdata, hinstructions, haddresses]

/-- What is read as a window is written as one. -/
theorem spelled_of_parse (h : parse i = .ok w) :
    w.offset = i.position ∧ ∃ written rest, i.rest = written ++ rest ∧ Spelled w written := by
  obtain ⟨l, h⟩ := parse_eq_ok_iff.1 h
  obtain ⟨indicator, segment, deltaLength, delta, j1, j2, j3, k, hindicator, hsegment, hlength,
    htake, hdelta⟩ := parser_parts h
  obtain ⟨_, hrest1, hpos1, rfl, hannounces⟩ := conforms_indicatorByte _ _ _ hindicator
  obtain ⟨segmentBytes, hrest2, hpos2, hsegment, horigin⟩ := conforms_segmentPart _ _ _ _ hsegment
  obtain ⟨lengthBytes, hrest3, hpos3, hlength⟩ := conforms_varint _ _ _ hlength
  obtain ⟨_, hrest4, -, rfl, hcount⟩ := conforms_take _ _ _ _ htake
  obtain ⟨⟨hoffset, rfl, rfl⟩, hset, lengths, hfill, hdataOffset, hform⟩ := fill_of_deltaPart hdelta
  rw [← horigin, ← hset] at hannounces
  refine ⟨hoffset, _, l.rest, ?_,
    .mk hannounces hsegment hlength hform (by rw [← hfill, hcount]) ?_⟩
  · rw [hrest1, hrest2, hrest3, hrest4, hfill]
    simp only [List.append_assoc]
  · rw [hdataOffset, hpos3, hpos2, hpos1, hoffset]
    rfl

/-- What is written as a window is read as that window. -/
theorem parse_of_spelled (h : Spelled w written) (hoffset : w.offset = i.position)
    (hrest : i.rest = written ++ rest) : parse i = .ok w := by
  obtain @⟨indicator, segment, deltaLength, lengths, hindicator, hsegment, hdeltaLength, hlengths,
    hfill, hdataOffset⟩ := h
  rw [← hfill] at hdeltaLength
  rw [hindicator.eq_indicatorOf] at hrest
  have hreads := parser_reads hsegment hlengths hdeltaLength i.position
  rw [(parse_of_reads hreads hrest).1, hfill, ← hoffset, ← hdataOffset]

lemma Spelled.length_eq_size (h : Spelled w written) : written.length = w.size := by
  obtain ⟨-, -, -, -, -, hdataOffset⟩ := h
  rw [size, stop, addressesOffset, instructionsOffset, hdataOffset]
  simp only [List.length_append, List.length_singleton]
  omega

lemma Spelled.head?_append (h : Spelled w written) (rest : Bytes) :
    (written ++ rest).head? = some w.indicator := by
  obtain ⟨hindicator, -⟩ := h
  rw [hindicator.eq_indicatorOf, indicatorOf, indicator]
  rcases w.segment with _ | segment <;> rfl

def moveTo (w : Window) (offset : Nat) : Window :=
  { w with offset, dataOffset := offset + (w.dataOffset - w.offset) }

/-- Where a window begins is not written in it. -/
lemma Spelled.moveTo (h : Spelled w written) (offset : Nat) : Spelled (w.moveTo offset) written := by
  obtain ⟨hindicator, hsegment, hdeltaLength, hlengths, hfill, hdataOffset⟩ := h
  refine .mk hindicator hsegment hdeltaLength hlengths hfill ?_
  rw [Window.moveTo, hdataOffset]
  dsimp only
  omega

/-- The window stands in the bytes as its fields say. -/
structure StandsIn (w : Window) (bytes : Bytes) : Prop where
  indicator : bytes[w.offset]? = some w.indicator
  data : bytes.between w.dataOffset w.instructionsOffset = w.data
  instructions : bytes.between w.instructionsOffset w.addressesOffset = w.instructions
  addresses : bytes.between w.addressesOffset w.stop = w.addresses
  stop : w.stop = w.offset + w.size

lemma standsIn_of_parse {bytes : Bytes} {offset : Nat} (h : parse (.ofOffset bytes offset) = .ok w) :
    w.StandsIn bytes := by
  obtain ⟨hdata, hinstructions, haddresses⟩ := sectionsIn_of_parse h
  have hpositive := size_pos_of_parse h
  obtain ⟨hoffset, written, rest, hrest, hspelled⟩ := spelled_of_parse h
  have hoffset : w.offset = offset := hoffset
  have hrest : bytes.drop offset = written ++ rest := hrest
  refine ⟨?_, hdata.between, hinstructions.between, haddresses.between, ?_⟩
  · rw [hoffset, ← List.head?_drop, hrest, hspelled.head?_append]
  · rw [size] at hpositive ⊢
    omega

/-- **Windows.** The bytes at an offset parse as a window just when they begin with a spelling of
it, whose fields then stand where the window says; and any spelling, wherever it is put and
whatever is around it, parses as the window that it spells. -/
theorem windowParse_iff_spelled (w : Window) :
    (∀ bytes offset, parse (.ofOffset bytes offset) = .ok w ↔
      w.offset = offset ∧ ∃ written rest, bytes.drop offset = written ++ rest ∧
        written.length = w.size ∧ Spelled w written) ∧
    (∀ bytes offset, parse (.ofOffset bytes offset) = .ok w → w.StandsIn bytes) ∧
    ∀ before written after, Spelled w written →
      parse (.ofOffset (before ++ (written ++ after)) before.length)
        = .ok (w.moveTo before.length) := by
  refine ⟨fun bytes offset => ⟨fun h => ?_, ?_⟩, fun bytes offset => standsIn_of_parse, ?_⟩
  · obtain ⟨hoffset, written, rest, hrest, hspelled⟩ := spelled_of_parse h
    exact ⟨hoffset, written, rest, hrest, hspelled.length_eq_size, hspelled⟩
  · rintro ⟨hoffset, written, rest, hrest, -, hspelled⟩
    exact parse_of_spelled hspelled hoffset hrest
  · intro before written after hspelled
    exact parse_of_spelled (hspelled.moveTo before.length) rfl List.drop_left

/-- A window that copies from the dictionary and has a checksum; two of its numbers are padded. -/
def paddedBytes : Bytes :=
  [0x05, 0x80, 0x05, 0x00, 0x0d, 0x80, 0x02, 0x00, 0x02, 0x01, 0x00, 0x00, 0xc6, 0x00, 0x84,
    0x41, 0x42, 0x03]

def paddedWindow : Window :=
  ⟨0, some ⟨.dictionary, 0, 5⟩, 13, 2, some 0xc60084, 15, [0x41, 0x42], [0x03], []⟩

lemma spelled_paddedWindow : Spelled paddedWindow paddedBytes := by
  have hlengths : LengthsForm ⟨2, 2, 1, 0, some 0xc60084⟩
      ([0x80, 0x02] ++ ([0x00] ++ ([0x02] ++ ([0x01] ++ ([0x00] ++ [0x00, 0xc6, 0x00, 0x84]))))) :=
    .mk (Varint.written_of_lt (n := 2)).pad Varint.written_of_lt Varint.written_of_lt
      Varint.written_of_lt (.some rfl (by decide))
  have hsegment : SegmentForm (some ⟨.dictionary, 0, 5⟩) ([0x80, 0x05] ++ [0x00]) :=
    .some (Varint.written_of_lt (n := 5)).pad Varint.written_of_lt
  exact Spelled.mk (w := paddedWindow) (announces_indicatorOf (some .dictionary) true) hsegment
    (Varint.written_of_lt (n := 13)) hlengths rfl rfl

theorem windowParse_paddedWindow :
    parse (.ofOffset paddedBytes 0) = .ok paddedWindow ∧ paddedWindow.StandsIn paddedBytes ∧
      parse (.ofOffset ([0x00, 0x01] ++ (paddedBytes ++ [0x02])) 2)
        = .ok (paddedWindow.moveTo 2) := by
  obtain ⟨hiff, hstands, hput⟩ := windowParse_iff_spelled paddedWindow
  have hparse := (hiff paddedBytes 0).2 ⟨rfl, paddedBytes, [], rfl, rfl, spelled_paddedWindow⟩
  exact ⟨hparse, hstands _ _ hparse, hput [0x00, 0x01] _ _ spelled_paddedWindow⟩

end Spelled

end Window

/-! ### File headers -/

namespace FileHeader

/-- The indicator has none but known bits, and announces just the parts that there are. -/
structure Announces (indicator : UInt8) (tabled applied : Bool) : Prop where
  known : indicator &&& ~~~ 6 = 0
  table : indicator &&& 2 ≠ 0 ↔ tabled = true
  application : indicator &&& 4 ≠ 0 ↔ applied = true

/-- The bytes write the header: signature, version and indicator, and the parts that there are. -/
inductive Spelled (header : FileHeader) : Bytes → Prop
  | mk {indicator : UInt8} {table application : Bytes}
    (hindicator : Announces indicator header.table.isSome header.application.isSome)
    (htable : TableForm header.table table)
    (happlication : ApplicationForm header.application application)
    (hsize : header.size = 5 + table.length + application.length) :
    Spelled header ([0xd6, 0xc3, 0xc4, 0x00, indicator] ++ (table ++ application))

section Spelled

variable {indicator : UInt8} {tabled applied : Bool} {i : Input} {header : FileHeader}
  {written rest : Bytes}

lemma announces_indicatorOf (tabled applied : Bool) :
    Announces (indicatorOf tabled applied) tabled applied := by
  cases tabled <;> cases applied <;> constructor <;> decide

/-- An indicator that the parser lets pass announces what the parser then looks for. -/
lemma announces_of_passed (hknown : ¬ 7 < indicator)
    (hcompression : ¬ indicator &&& compressionBit ≠ 0) :
    Announces indicator (decide (indicator &&& tableBit ≠ 0))
      (decide (indicator &&& applicationBit ≠ 0)) := by
  have hbits : ∀ b : UInt8, ¬ 7 < b → ¬ b &&& compressionBit ≠ 0 → b &&& ~~~ 6 = 0 := by
    decide +kernel
  exact ⟨hbits indicator hknown hcompression, decide_eq_true_iff.symm, decide_eq_true_iff.symm⟩

/-- What an indicator announces determines it. -/
lemma Announces.eq_indicatorOf (h : Announces indicator tabled applied) :
    indicator = indicatorOf tabled applied := by
  have hbits : ∀ b : UInt8, b &&& ~~~ 6 = 0 →
      b = (if b &&& 2 ≠ 0 then 2 else 0) ||| (if b &&& 4 ≠ 0 then 4 else 0) := by
    decide +kernel
  calc
    indicator = (if indicator &&& 2 ≠ 0 then 2 else 0) ||| (if indicator &&& 4 ≠ 0 then 4 else 0) :=
      hbits indicator h.known
    _ = indicatorOf tabled applied := by
      simp only [h.table, h.application]
      rfl

lemma conforms_expect (unit : Nat) (expected : Bytes) :
    Conforms (expect unit expected) fun _ used => used = expected := by
  induction expected generalizing unit with
  | nil => exact (conforms_pure ()).mono fun _ _ h => h.1
  | cons b expected ih =>
    refine Conforms.mono (conforms_bind (conforms_byte unit) fun _ =>
      conforms_failIf_bind fun _ => ih (unit - 1)) ?_
    rintro _ _ ⟨c, _, _, rfl, rfl, heq, rfl⟩
    rw [Decidable.not_not.1 heq]
    rfl

lemma conforms_fixedPart : Conforms fixedPart fun b used =>
    used = [0xd6, 0xc3, 0xc4, 0x00, b] ∧
      Announces b (decide (b &&& tableBit ≠ 0)) (decide (b &&& applicationBit ≠ 0)) := by
  refine Conforms.mono (conforms_bind (conforms_expect _ _) fun _ => conforms_need_bind fun _ =>
    conforms_bind (conforms_byte 2) fun _ => conforms_failIf_bind fun _ =>
    conforms_bind (conforms_byte 1) fun _ => conforms_failIf_bind fun _ =>
    conforms_failIf_bind fun _ => conforms_pure _) ?_
  rintro _ _ ⟨_, _, _, rfl, rfl, found, _, _, rfl, rfl, hversion, b, _, _, rfl, rfl, hknown,
    hcompression, rfl, rfl⟩
  rw [Decidable.not_not.1 hversion]
  exact ⟨rfl, announces_of_passed hknown hcompression⟩

lemma conforms_tableSection :
    Conforms tableSection fun table used => TableForm (some table) used := by
  refine Conforms.mono (conforms_bind conforms_varint fun _ => conforms_failIf_bind fun _ =>
    conforms_need_bind fun _ => conforms_bind (conforms_byte 2) fun _ =>
    conforms_bind (conforms_byte 1) fun _ => conforms_bind_pure (conforms_take _) _) ?_
  rintro _ _ ⟨length, _, _, rfl, hlength, hge, nearSize, _, _, rfl, rfl, sameSize, _, _, rfl, rfl,
    _, ⟨rfl, hdelta⟩, rfl⟩
  have hsum := Nat.sub_add_cancel (Nat.not_lt.1 hge)
  rw [← hsum, ← hdelta] at hlength
  exact .some nearSize sameSize hlength

lemma conforms_tablePart (indicator : UInt8) :
    Conforms (tablePart indicator) fun table used =>
      TableForm table used ∧ table.isSome = decide (indicator &&& tableBit ≠ 0) :=
  conforms_optional _ .none (conforms_map conforms_tableSection some)

lemma conforms_applicationPart (indicator : UInt8) :
    Conforms (applicationPart indicator) fun application used =>
      ApplicationForm application used ∧
        application.isSome = decide (indicator &&& applicationBit ≠ 0) := by
  refine conforms_optional _ .none
    ((conforms_map (conforms_bind conforms_varint conforms_take) some).mono ?_)
  rintro _ _ ⟨bytes, ⟨length, _, _, rfl, hlength, rfl, rfl⟩, rfl⟩
  exact ⟨_, .some hlength, rfl⟩

/-- What is read as a header is written as one. -/
theorem spelled_of_parse (hgap : i.gap = 0) (h : parse i = .ok header) :
    ∃ written rest, i.rest = written ++ rest ∧ Spelled header written := by
  obtain ⟨j, h⟩ := (parse_eq_ok_iff hgap).1 h
  obtain ⟨indicator, table, application, j1, j2, hfixed, htable, happlication, rfl⟩ :=
    parser_parts h
  obtain ⟨_, hrest1, hpos1, rfl, hannounces⟩ := conforms_fixedPart _ _ _ hfixed
  obtain ⟨tableBytes, hrest2, hpos2, htable, htabled⟩ := conforms_tablePart _ _ _ _ htable
  obtain ⟨applicationBytes, hrest3, hpos3, happlication, happlied⟩ :=
    conforms_applicationPart _ _ _ _ happlication
  rw [← htabled, ← happlied] at hannounces
  refine ⟨_, j.rest, ?_, .mk hannounces htable happlication ?_⟩
  · rw [hrest1, hrest2, hrest3]
    simp only [List.append_assoc]
  · rw [hpos3, hpos2, hpos1]
    simp only [List.length_cons, List.length_nil]
    omega

lemma Spelled.length_eq_size (h : Spelled header written) : written.length = header.size := by
  obtain ⟨-, -, -, hsize⟩ := h
  rw [hsize]
  simp only [List.length_append, List.length_cons, List.length_nil]
  omega

/-- What is written as a header is read as that header. -/
theorem parse_of_spelled (h : Spelled header written) (hgap : i.gap = 0)
    (hrest : i.rest = written ++ rest) : parse i = .ok header := by
  have hsize := h.length_eq_size
  obtain ⟨hindicator, htable, happlication, -⟩ := h
  rw [hindicator.eq_indicatorOf] at hrest hsize
  rw [parse_of_form (.mk htable happlication) hgap hrest]
  exact congrArg (fun size => Except.ok { header with size }) hsize

lemma Spelled.getElem?_append (h : Spelled header written) (rest : Bytes) :
    (written ++ rest)[4]? = some header.indicator := by
  obtain ⟨hindicator, -⟩ := h
  rw [hindicator.eq_indicatorOf]
  rfl

lemma Spelled.ne_nil (h : Spelled header written) : written ≠ [] := by
  obtain ⟨-⟩ := h
  exact List.cons_ne_nil _ _

section Offset

variable {bytes : Bytes} {offset : Nat}

lemma spelled_of_parse_ofOffset (h : parse (.ofOffset bytes offset) = .ok header) :
    ∃ written rest, bytes.drop offset = written ++ rest ∧ Spelled header written := by
  rcases Nat.eq_zero_or_pos (Input.ofOffset bytes offset).gap with hgap | hgap
  · exact spelled_of_parse hgap h
  · rw [parse, if_pos hgap] at h
    cases h

/-- A spelling is not empty, so where one begins there is no gap before. -/
lemma parse_ofOffset_of_spelled (h : Spelled header written)
    (hrest : bytes.drop offset = written ++ rest) : parse (.ofOffset bytes offset) = .ok header := by
  refine parse_of_spelled h (Input.gap_ofOffset ?_) hrest
  by_contra hlt
  rw [List.drop_eq_nil_of_le (by omega)] at hrest
  exact h.ne_nil (List.append_eq_nil_iff.1 hrest.symm).1

end Offset

/-- **File headers.** The bytes at an offset parse as a header just when they begin with a spelling
of it; and any spelling, wherever it is put and whatever is around it, parses as the header that it
spells. -/
theorem headerParse_iff_spelled (header : FileHeader) :
    (∀ bytes offset, parse (.ofOffset bytes offset) = .ok header ↔
      ∃ written rest, bytes.drop offset = written ++ rest ∧ written.length = header.size ∧
        Spelled header written) ∧
    (∀ bytes offset, parse (.ofOffset bytes offset) = .ok header →
      bytes[offset + 4]? = some header.indicator) ∧
    ∀ before written after, Spelled header written →
      parse (.ofOffset (before ++ (written ++ after)) before.length) = .ok header := by
  refine ⟨fun bytes offset => ⟨fun h => ?_, ?_⟩, fun bytes offset h => ?_, ?_⟩
  · obtain ⟨written, rest, hrest, hspelled⟩ := spelled_of_parse_ofOffset h
    exact ⟨written, rest, hrest, hspelled.length_eq_size, hspelled⟩
  · rintro ⟨written, rest, hrest, -, hspelled⟩
    exact parse_ofOffset_of_spelled hspelled hrest
  · obtain ⟨written, rest, hrest, hspelled⟩ := spelled_of_parse_ofOffset h
    rw [← List.getElem?_drop, hrest, hspelled.getElem?_append]
  · intro before written after hspelled
    exact parse_ofOffset_of_spelled hspelled List.drop_left

/-- A header with both of its parts; the length of the table is padded. -/
def paddedBytes : Bytes :=
  [0xd6, 0xc3, 0xc4, 0x00, 0x06, 0x80, 0x03, 0x04, 0x03, 0xaa, 0x02, 0x68, 0x69]

def paddedHeader : FileHeader := ⟨some ⟨4, 3, [0xaa]⟩, some [0x68, 0x69], 13⟩

lemma spelled_paddedHeader : Spelled paddedHeader paddedBytes := by
  have htable : TableForm (some ⟨4, 3, [0xaa]⟩) ([0x80, 0x03] ++ ([4] ++ ([3] ++ [0xaa]))) :=
    .some 4 3 (Varint.written_of_lt (n := 3)).pad
  have happlication : ApplicationForm (some [0x68, 0x69]) ([0x02] ++ [0x68, 0x69]) :=
    .some (Varint.written_of_lt (n := 2))
  exact @Spelled.mk paddedHeader _ _ _ (announces_indicatorOf true true) htable happlication rfl

theorem headerParse_paddedHeader :
    parse (.ofOffset paddedBytes 0) = .ok paddedHeader ∧ paddedBytes[0 + 4]? = some 0x06 ∧
      parse (.ofOffset ([0x00, 0x01] ++ (paddedBytes ++ [0x02])) 2) = .ok paddedHeader := by
  obtain ⟨hiff, hindicator, hput⟩ := headerParse_iff_spelled paddedHeader
  have hparse := (hiff paddedBytes 0).2 ⟨paddedBytes, [], rfl, rfl, spelled_paddedHeader⟩
  exact ⟨hparse, hindicator _ _ hparse, hput [0x00, 0x01] _ _ spelled_paddedHeader⟩

end Spelled

end FileHeader

end Vcdiff
