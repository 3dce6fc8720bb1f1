import Vcdiff.Proofs.Incremental

/-!
The forms that a file header and a window may take as bytes, with all the freedom that a writer
has, and that the parsers take each form for what it is.
-/

namespace Vcdiff

namespace Parser

variable {α β : Type}

/-- At the position, and whatever follows, the parser takes just these bytes and gives `a`. -/
def Reads (p : Parser α) (position : Nat) (bytes : Bytes) (a : α) : Prop :=
  ∀ rest gap, p ⟨position, bytes ++ rest, gap⟩ = .ok (a, ⟨position + bytes.length, rest, gap⟩)

section Reads

variable {p : Parser α} {f : α → Parser β} {a : α} {b : β} {k n : Nat} {u v : Bytes}

lemma reads_pure (k : Nat) (a : α) : Reads (pure a) k [] a := fun _ _ => rfl

lemma reads_bind (hp : Reads p k u a) (hf : Reads (f a) (k + u.length) v b) :
    Reads (p >>= f) k (u ++ v) b := by
  intro rest gap
  rw [List.append_assoc, bind_of_ok (hp (v ++ rest) gap), hf rest gap, List.length_append,
    Nat.add_assoc]

/-- A parser that takes nothing may stand before any other. -/
lemma reads_then (hp : Reads p k [] a) (hf : Reads (f a) k v b) : Reads (p >>= f) k v b :=
  reads_bind hp hf

/-- A parser that takes nothing may stand after any other. -/
lemma reads_last (hp : Reads p k u a) (hf : Reads (f a) (k + u.length) [] b) :
    Reads (p >>= f) k u b := by
  have := reads_bind hp hf
  rwa [List.append_nil] at this

lemma reads_map (hp : Reads p k u a) (g : α → β) : Reads (g <$> p) k u (g a) := by
  rw [← bind_pure_comp]
  exact reads_last hp (reads_pure _ _)

lemma reads_position (k : Nat) : Reads position k [] k := fun _ _ => rfl

lemma reads_failIf {c : Prop} [Decidable c] (h : ¬ c) (fault : Fault) (k : Nat) :
    Reads (failIf c fault) k [] () := by
  intro rest gap
  rw [failIf, if_neg h]
  rfl

lemma reads_byte (unit k : Nat) (byte : UInt8) : Reads (Parser.byte unit) k [byte] byte :=
  fun _ _ => rfl

lemma reads_varint (h : Varint.Written n u) (k : Nat) : Reads varint k u n := by
  intro rest gap
  exact varint_of_value (Varint.scan_written h rest)

lemma reads_take (bytes : Bytes) (k : Nat) : Reads (take bytes.length) k bytes bytes := by
  intro rest gap
  rw [take_of_le (by simp)]
  simp [Input.drop]

lemma reads_orFault (hp : Reads p k u a) (fault : Fault) : Reads (p.orFault fault) k u a := by
  intro rest gap
  rw [orFault, hp rest gap]

lemma reads_need (hp : Reads p k u a) (hn : n ≤ u.length) :
    Reads (do need n; p) k u a := by
  intro rest gap
  rw [bind_of_ok (need_of_le (by simp only [List.length_append]; omega))]
  exact hp rest gap

lemma reads_within {start : Nat} {j : Input} (h : p (.ofBytes start v) = .ok (a, j)) (k : Nat) :
    Reads (within start v p) k [] a :=
  fun _ _ => within_of_ok _ h

end Reads

end Parser

open Vcdiff.Parser

/-! ### Windows -/

namespace Window

def indicatorOf (origin : Option Origin) (checked : Bool) : UInt8 :=
  origin.elim 0 Origin.bit ||| (if checked then checksumBit else 0)

inductive SegmentForm : Option Segment → Bytes → Prop
  | none : SegmentForm none []
  | some {segment : Segment} {length offset : Bytes}
    (hlength : Varint.Written segment.length length)
    (hoffset : Varint.Written segment.offset offset) :
    SegmentForm (some segment) (length ++ offset)

inductive ChecksumForm : Option Nat → Bytes → Prop
  | none : ChecksumForm none []
  | some {checksum : Nat} {bytes : Bytes} (hlength : bytes.length = 4)
    (h : Bytes.toNat bytes = checksum) : ChecksumForm (some checksum) bytes

inductive LengthsForm (n : Lengths) : Bytes → Prop
  | mk {target data instructions addresses checksum : Bytes}
    (htarget : Varint.Written n.target target) (hdata : Varint.Written n.data data)
    (hinstructions : Varint.Written n.instructions instructions)
    (haddresses : Varint.Written n.addresses addresses)
    (hchecksum : ChecksumForm n.checksum checksum) :
    LengthsForm n (target ++ ([0] ++ (data ++ (instructions ++ (addresses ++ checksum)))))

inductive Form (segment : Option Segment) (targetLength : Nat) (checksum : Option Nat)
    (data instructions addresses : Bytes) : Bytes → Prop
  | mk {segmentBytes deltaLength lengths : Bytes} (hsegment : SegmentForm segment segmentBytes)
    (hlengths : LengthsForm
      ⟨targetLength, data.length, instructions.length, addresses.length, checksum⟩ lengths)
    (hdelta : Varint.Written (lengths ++ (data ++ instructions ++ addresses)).length deltaLength) :
    Form segment targetLength checksum data instructions addresses
      ([indicatorOf (segment.map Segment.origin) checksum.isSome] ++ (segmentBytes ++ (deltaLength
        ++ (lengths ++ (data ++ instructions ++ addresses)))))

section Reads

variable {segment : Option Segment} {checksum : Option Nat} {bytes : Bytes}

lemma originOf_indicatorOf (origin : Option Origin) (checked : Bool) :
    originOf (indicatorOf origin checked) = origin := by
  rcases origin with _ | _ | _ <;> cases checked <;> decide

lemma indicatorOf_le (origin : Option Origin) (checked : Bool) :
    ¬ 7 < indicatorOf origin checked := by
  rcases origin with _ | _ | _ <;> cases checked <;> decide

lemma one_origin_of_indicatorOf (origin : Option Origin) (checked : Bool) :
    ¬ (indicatorOf origin checked &&& Origin.dictionary.bit ≠ 0 ∧
      indicatorOf origin checked &&& Origin.target.bit ≠ 0) := by
  rcases origin with _ | _ | _ <;> cases checked <;> decide

lemma indicatorOf_and_checksumBit (origin : Option Origin) (checked : Bool) :
    indicatorOf origin checked &&& checksumBit = 0 ↔ checked = false := by
  rcases origin with _ | _ | _ <;> cases checked <;> decide

lemma reads_indicatorByte (origin : Option Origin) (checked : Bool) (k : Nat) :
    Reads indicatorByte k [indicatorOf origin checked] (indicatorOf origin checked) := by
  refine reads_last (reads_byte 1 k _) ?_
  refine reads_then (reads_failIf (indicatorOf_le origin checked) _ _) ?_
  exact reads_then (reads_failIf (one_origin_of_indicatorOf origin checked) _ _) (reads_pure _ _)

lemma reads_segmentPart (h : SegmentForm segment bytes) (k : Nat) :
    Reads (segmentPart (segment.map Segment.origin)) k bytes segment := by
  cases h with
  | none => exact reads_pure k none
  | @some segment length offset hlength hoffset =>
    refine reads_bind (reads_varint hlength k) ?_
    exact reads_last (reads_varint hoffset _) (reads_pure _ (some segment))

lemma reads_checksumPart (h : ChecksumForm checksum bytes) (origin : Option Origin) (k : Nat) :
    Reads (checksumPart (indicatorOf origin checksum.isSome)) k bytes checksum := by
  cases h with
  | none =>
    rw [checksumPart, Option.isSome_none, if_pos ((indicatorOf_and_checksumBit _ _).2 rfl)]
    exact reads_pure k none
  | @some checksum bytes hlength h =>
    rw [checksumPart, if_neg (by simp [indicatorOf_and_checksumBit]), ← hlength, ← h]
    exact reads_map (reads_take bytes k) _

lemma reads_lengthsPart {n : Lengths} (h : LengthsForm n bytes) (origin : Option Origin)
    (deltaLength k : Nat) :
    Reads (lengthsPart (indicatorOf origin n.checksum.isSome) deltaLength) k bytes n := by
  obtain ⟨htarget, hdata, hinstructions, haddresses, hchecksum⟩ := h
  refine reads_bind (reads_orFault (reads_varint htarget _) _) ?_
  refine reads_bind (reads_orFault (reads_byte 1 _ 0) _) ?_
  refine reads_then (reads_failIf (by decide) _ _) (reads_then (reads_failIf (by decide) _ _) ?_)
  refine reads_bind (reads_orFault (reads_varint hdata _) _) ?_
  refine reads_bind (reads_orFault (reads_varint hinstructions _) _) ?_
  refine reads_bind (reads_orFault (reads_varint haddresses _) _) ?_
  refine reads_last (reads_orFault (reads_checksumPart hchecksum origin _) _) ?_
  exact reads_pure _ n

/-- The delta encoding stands by itself, so that its sections are all that is left of it. -/
lemma deltaPart_of_form {n : Lengths} {lengths data instructions addresses : Bytes}
    (h : LengthsForm n lengths) (hdata : n.data = data.length)
    (hinstructions : n.instructions = instructions.length)
    (haddresses : n.addresses = addresses.length) (segment : Option Segment)
    (offset start deltaLength : Nat) :
    deltaPart offset (indicatorOf (segment.map Segment.origin) n.checksum.isSome) segment
        deltaLength (.ofBytes start (lengths ++ (data ++ instructions ++ addresses)))
      = .ok (⟨offset, segment, deltaLength, n.target, n.checksum, start + lengths.length, data,
          instructions, addresses⟩,
        ⟨start + lengths.length, data ++ instructions ++ addresses, 0⟩) := by
  have hlengths := reads_lengthsPart h (segment.map Segment.origin) deltaLength start
    (data ++ instructions ++ addresses) 0
  have hposition : position ⟨start + lengths.length, data ++ instructions ++ addresses, 0⟩
      = .ok (start + lengths.length,
        ⟨start + lengths.length, data ++ instructions ++ addresses, 0⟩) := rfl
  have hahead : ahead ⟨start + lengths.length, data ++ instructions ++ addresses, 0⟩
      = .ok (data ++ instructions ++ addresses,
        ⟨start + lengths.length, data ++ instructions ++ addresses, 0⟩) := rfl
  have hfill : ¬ n.data + n.instructions + n.addresses
      ≠ (data ++ instructions ++ addresses).length := by
    simp only [List.length_append]
    omega
  rw [deltaPart, Input.ofBytes, bind_of_ok hlengths, bind_of_ok hposition, bind_of_ok hahead,
    bind_of_ok (failIf_eq_ok_iff.2 ⟨hfill, rfl⟩)]
  have hfirst : (data ++ instructions ++ addresses).take n.data = data := by
    rw [hdata, List.append_assoc, List.take_left]
  have hmiddle : ((data ++ instructions ++ addresses).drop n.data).take n.instructions
      = instructions := by
    rw [hdata, hinstructions, List.append_assoc, List.drop_left, List.take_left]
  have hlast : (data ++ instructions ++ addresses).drop (n.data + n.instructions)
      = addresses := by
    rw [hdata, hinstructions, ← List.length_append, List.drop_left]
  simp only [hfirst, hmiddle, hlast]
  rfl

/-- A window in any of its forms is read as that window, with the offsets that the form gives. -/
lemma parser_reads {targetLength : Nat} {data instructions addresses : Bytes}
    {segmentBytes deltaLength lengths : Bytes} (hsegment : SegmentForm segment segmentBytes)
    (hlengths : LengthsForm
      ⟨targetLength, data.length, instructions.length, addresses.length, checksum⟩ lengths)
    (hdelta : Varint.Written (lengths ++ (data ++ instructions ++ addresses)).length deltaLength)
    (k : Nat) :
    Reads parser k ([indicatorOf (segment.map Segment.origin) checksum.isSome] ++ (segmentBytes
        ++ (deltaLength ++ (lengths ++ (data ++ instructions ++ addresses)))))
      ⟨k, segment, (lengths ++ (data ++ instructions ++ addresses)).length, targetLength, checksum,
        k + 1 + segmentBytes.length + deltaLength.length + lengths.length, data, instructions,
        addresses⟩ := by
  have hpart := reads_segmentPart hsegment (k + 1)
  rw [← originOf_indicatorOf (segment.map Segment.origin) checksum.isSome] at hpart
  have hdeltaPart := deltaPart_of_form hlengths rfl rfl rfl segment k
    (k + 1 + segmentBytes.length + deltaLength.length)
    (lengths ++ (data ++ instructions ++ addresses)).length
  refine reads_then (reads_position k) (reads_bind (reads_indicatorByte _ _ k) ?_)
  refine reads_bind hpart (reads_bind (reads_varint hdelta _) (reads_then (reads_position _) ?_))
  exact reads_last (reads_take _ _) (reads_within hdeltaPart _)

/-- **Windows.** A window in any of its forms is read as that window. -/
theorem reads_of_form {targetLength : Nat} {data instructions addresses : Bytes}
    (h : Form segment targetLength checksum data instructions addresses bytes) (k : Nat) :
    ∃ w : Window, Reads parser k bytes w ∧ w.segment = segment ∧ w.targetLength = targetLength ∧
      w.checksum = checksum ∧ w.data = data ∧ w.instructions = instructions ∧
      w.addresses = addresses := by
  obtain ⟨hsegment, hlengths, hdelta⟩ := h
  exact ⟨_, parser_reads hsegment hlengths hdelta k, rfl, rfl, rfl, rfl, rfl, rfl⟩

lemma parse_of_reads {w : Window} {i : Input} {rest : Bytes} (h : Reads parser i.position bytes w)
    (hrest : i.rest = bytes ++ rest) : parse i = .ok w ∧ w.size = bytes.length := by
  have hparser := h rest i.gap
  rw [← hrest] at hparser
  obtain ⟨hoffset, hstop⟩ := parser_size hparser
  refine ⟨parse_eq_ok_iff.2 ⟨_, hparser⟩, ?_⟩
  rw [size, hoffset, hstop, Nat.add_sub_cancel_left]

end Reads

end Window

/-! ### File headers -/

namespace FileHeader

def indicatorOf (tabled applied : Bool) : UInt8 :=
  (if tabled then tableBit else 0) ||| (if applied then applicationBit else 0)

inductive TableForm : Option TableSection → Bytes → Prop
  | none : TableForm none []
  | some {length : Bytes} (nearSize sameSize : UInt8) {delta : Bytes}
    (hlength : Varint.Written (delta.length + 2) length) :
    TableForm (some ⟨nearSize.toNat, sameSize.toNat, delta⟩)
      (length ++ ([nearSize] ++ ([sameSize] ++ delta)))

inductive ApplicationForm : Option Bytes → Bytes → Prop
  | none : ApplicationForm none []
  | some {bytes length : Bytes} (hlength : Varint.Written bytes.length length) :
    ApplicationForm (some bytes) (length ++ bytes)

inductive Form (table : Option TableSection) (application : Option Bytes) : Bytes → Prop
  | mk {tableBytes applicationBytes : Bytes} (htable : TableForm table tableBytes)
    (happlication : ApplicationForm application applicationBytes) :
    Form table application (signature
      ++ ([version] ++ [indicatorOf table.isSome application.isSome])
      ++ (tableBytes ++ applicationBytes))

section Reads

variable {table : Option TableSection} {application : Option Bytes} {bytes : Bytes}

lemma indicatorOf_le (tabled applied : Bool) : ¬ 7 < indicatorOf tabled applied := by
  cases tabled <;> cases applied <;> decide

lemma indicatorOf_and_compressionBit (tabled applied : Bool) :
    ¬ indicatorOf tabled applied &&& compressionBit ≠ 0 := by
  cases tabled <;> cases applied <;> decide

lemma indicatorOf_and_tableBit (tabled applied : Bool) :
    indicatorOf tabled applied &&& tableBit = 0 ↔ tabled = false := by
  cases tabled <;> cases applied <;> decide

lemma indicatorOf_and_applicationBit (tabled applied : Bool) :
    indicatorOf tabled applied &&& applicationBit = 0 ↔ applied = false := by
  cases tabled <;> cases applied <;> decide

lemma reads_expect (unit k : Nat) (expected : Bytes) :
    Reads (expect unit expected) k expected () := by
  induction expected generalizing unit k with
  | nil => exact reads_pure k ()
  | cons b expected ih =>
    refine reads_bind (u := [b]) (reads_byte unit k b) ?_
    exact reads_then (reads_failIf (by simp) _ _) (ih _ _)

lemma reads_fixedPart (tabled applied : Bool) (k : Nat) :
    Reads fixedPart k (signature ++ ([version] ++ [indicatorOf tabled applied]))
      (indicatorOf tabled applied) := by
  refine reads_bind (reads_expect _ _ _) (reads_need ?_ (by simp))
  refine reads_bind (reads_byte 2 _ version) (reads_then (reads_failIf (by simp) _ _) ?_)
  refine reads_last (reads_byte 1 _ (indicatorOf tabled applied)) ?_
  refine reads_then (reads_failIf (indicatorOf_le tabled applied) _ _) ?_
  exact reads_then (reads_failIf (indicatorOf_and_compressionBit tabled applied) _ _)
    (reads_pure _ _)

lemma reads_tablePart (h : TableForm table bytes) (applied : Bool) (k : Nat) :
    Reads (tablePart (indicatorOf table.isSome applied)) k bytes table := by
  cases h with
  | none =>
    rw [tablePart, Option.isSome_none, if_pos ((indicatorOf_and_tableBit _ _).2 rfl)]
    exact reads_pure k none
  | @some length nearSize sameSize delta hlength =>
    rw [tablePart, if_neg (by simp [indicatorOf_and_tableBit])]
    refine reads_map ?_ some
    refine reads_bind (reads_varint hlength k) (reads_then (reads_failIf (by omega) _ _) ?_)
    refine reads_need ?_ (by simp)
    refine reads_bind (reads_byte 2 _ nearSize) (reads_bind (reads_byte 1 _ sameSize) ?_)
    exact reads_last (reads_take delta _) (reads_pure _ _)

lemma reads_applicationPart (h : ApplicationForm application bytes) (tabled : Bool) (k : Nat) :
    Reads (applicationPart (indicatorOf tabled application.isSome)) k bytes application := by
  cases h with
  | none =>
    rw [applicationPart, Option.isSome_none, if_pos ((indicatorOf_and_applicationBit _ _).2 rfl)]
    exact reads_pure k none
  | @some bytes length hlength =>
    rw [applicationPart, if_neg (by simp [indicatorOf_and_applicationBit])]
    exact reads_map (reads_bind (reads_varint hlength k) (reads_take bytes _)) some

lemma reads_of_form (h : Form table application bytes) (k : Nat) :
    ∃ used, Reads parser k bytes ⟨table, application, used⟩ := by
  obtain @⟨tableBytes, applicationBytes, htable, happlication⟩ := h
  refine ⟨k + (signature ++ ([version] ++ [indicatorOf table.isSome application.isSome])).length
    + tableBytes.length + applicationBytes.length - k, ?_⟩
  refine reads_then (reads_position k) (reads_bind (reads_fixedPart _ _ k) ?_)
  refine reads_bind (reads_tablePart htable _ _) ?_
  refine reads_last (reads_applicationPart happlication _ _) ?_
  exact reads_then (reads_position _) (reads_pure _ _)

/-- **File headers.** A header in any of its forms is read as that header. -/
theorem parse_of_form (h : Form table application bytes) {i : Input} {rest : Bytes}
    (hgap : i.gap = 0) (hrest : i.rest = bytes ++ rest) :
    parse i = .ok ⟨table, application, bytes.length⟩ := by
  obtain ⟨used, hreads⟩ := reads_of_form h i.position
  have hparser := hreads rest i.gap
  rw [← hrest] at hparser
  have hsize : used = bytes.length := (parser_size hparser).trans (Nat.add_sub_cancel_left _ _)
  rw [← hsize]
  exact (parse_eq_ok_iff hgap).2 ⟨_, hparser⟩

end Reads

end FileHeader

end Vcdiff
