import Vcdiff.Proofs.Incremental

/-!
The prelude of a window: the fields that stand before its delta encoding and state where the window
ends. Once they are there, all that can still be missing is the rest of the delta encoding.
-/

namespace Vcdiff

namespace Input

lemma ofOffset_append {bytes : Bytes} {offset : Nat} (h : offset ≤ bytes.length) (more : Bytes) :
    ofOffset (bytes ++ more) offset = (ofOffset bytes offset).extend more := by
  have hgap : offset - bytes.length = 0 := Nat.sub_eq_zero_of_le h
  have hgap' : offset - (bytes ++ more).length = 0 := by
    rw [List.length_append]
    omega
  simp only [ofOffset, extend, List.drop_append_of_le_length h, hgap, hgap']

lemma gap_ofOffset {bytes : Bytes} {offset : Nat} (h : offset ≤ bytes.length) :
    (ofOffset bytes offset).gap = 0 :=
  Nat.sub_eq_zero_of_le h

end Input

namespace Window

open Vcdiff.Parser

structure Prelude where
  indicator : UInt8
  segment : Option Segment
  deltaLength : Nat
  /-- The bytes that the prelude takes in the input. -/
  size : Nat
  deriving DecidableEq

/-- The bytes from the indicator of the window to the end of its sections. -/
def Prelude.windowSize (p : Prelude) : Nat := p.size + p.deltaLength

def preludePart : Parser Prelude := do
  let start ← position
  let indicator ← indicatorByte
  let segment ← segmentPart (originOf indicator)
  let deltaLength ← varint
  return ⟨indicator, segment, deltaLength, (← position) - start⟩

variable {i j : Input} {p : Prelude} {w : Window}

lemma stable_preludePart : Stable preludePart :=
  stable_bind stable_position fun _ => stable_bind stable_indicatorByte fun _ =>
    stable_bind (stable_segmentPart _) fun _ => stable_bind stable_varint fun _ =>
    stable_bind stable_position fun _ => stable_pure _

lemma preludePart_size (h : preludePart i = .ok (p, j)) : i.position + p.size = j.position := by
  have hle := (stable_preludePart.takes) i p j h
  obtain ⟨_, _, h1, h⟩ := bind_eq_ok_iff.1 h
  cases h1
  obtain ⟨_, _, -, h⟩ := bind_eq_ok_iff.1 h
  obtain ⟨_, _, -, h⟩ := bind_eq_ok_iff.1 h
  obtain ⟨_, _, -, h⟩ := bind_eq_ok_iff.1 h
  obtain ⟨_, _, h1, h⟩ := bind_eq_ok_iff.1 h
  cases h1
  cases h
  dsimp only
  omega

lemma preludePart_of_nil {i : Input} (h : i.rest = []) :
    preludePart i = .error (.incomplete 1) := by
  rcases i with ⟨position, rest, gap⟩
  subst h
  rfl

/-- After its prelude, a window is its delta encoding and nothing else. -/
lemma parser_of_prelude (h : preludePart i = .ok (p, j)) :
    parser i = (take p.deltaLength >>= fun delta =>
      within j.position delta (deltaPart i.position p.indicator p.segment p.deltaLength)) j := by
  obtain ⟨_, _, h1, h⟩ := bind_eq_ok_iff.1 h
  cases h1
  obtain ⟨indicator, j1, hindicator, h⟩ := bind_eq_ok_iff.1 h
  obtain ⟨segment, j2, hsegment, h⟩ := bind_eq_ok_iff.1 h
  obtain ⟨deltaLength, j3, hlength, h⟩ := bind_eq_ok_iff.1 h
  obtain ⟨_, _, h1, h⟩ := bind_eq_ok_iff.1 h
  cases h1
  cases h
  have hstart : position i = .ok (i.position, i) := rfl
  have hstop : position j = .ok (j.position, j) := rfl
  rw [parser, bind_of_ok hstart, bind_of_ok hindicator, bind_of_ok hsegment, bind_of_ok hlength,
    bind_of_ok hstop]

/-- A window that parses has a prelude, and its delta encoding parses by itself. -/
lemma exists_prelude_of_parse (h : parse i = .ok w) :
    ∃ p j k delta rest, preludePart i = .ok (p, j) ∧ j.rest = delta ++ rest ∧
      deltaPart i.position p.indicator p.segment p.deltaLength (.ofBytes j.position delta)
        = .ok (w, k) := by
  obtain ⟨l, hl⟩ := parse_eq_ok_iff.1 h
  obtain ⟨indicator, segment, deltaLength, delta, j1, j2, j3, k, hindicator, hsegment, hlength,
    htake, hdelta⟩ := parser_parts hl
  have hstart : position i = .ok (i.position, i) := rfl
  have hstop : position j3 = .ok (j3.position, j3) := rfl
  have hprelude : preludePart i
      = .ok (⟨indicator, segment, deltaLength, j3.position - i.position⟩, j3) := by
    rw [preludePart, bind_of_ok hstart, bind_of_ok hindicator, bind_of_ok hsegment,
      bind_of_ok hlength, bind_of_ok hstop]
    rfl
  exact ⟨_, j3, k, delta, l.rest, hprelude, rest_of_take htake, hdelta⟩

/-- The sections of a window that parses stand in the input, from its data offset on. -/
lemma sections_of_parse (h : parse i = .ok w) :
    ∃ before after, i.rest = before ++ (w.data ++ (w.instructions ++ (w.addresses ++ after))) ∧
      w.dataOffset = i.position + before.length := by
  obtain ⟨p, j, k, delta, after, hprelude, hrest, hdelta⟩ := exists_prelude_of_parse h
  obtain ⟨prelude, hi, hposition, -⟩ := stable_preludePart.loc _ _ _ hprelude
  obtain ⟨lengths, hsections, hoffset⟩ := sections_of_deltaPart hdelta
  refine ⟨prelude ++ lengths, after, ?_, ?_⟩
  · rw [hi, hrest, hsections]
    simp only [List.append_assoc]
  · rw [hoffset, hposition, List.length_append, Nat.add_assoc]

/-- A window that is not all there asks for the rest of its delta encoding. -/
lemma parse_of_prelude_of_lt (h : preludePart i = .ok (p, j))
    (hlt : j.rest.length < p.deltaLength) :
    parse i = .error (.incomplete (p.deltaLength - j.rest.length)) := by
  rw [parse_eq_error_iff, parser_of_prelude h]
  exact bind_of_error (take_of_lt hlt)

/-- A window that is all there is complete, or wrong whatever follows. -/
lemma parse_of_prelude_of_le (h : preludePart i = .ok (p, j)) (hle : p.deltaLength ≤ j.rest.length)
    (missing : Nat) : parse i ≠ .error (.incomplete missing) := by
  rw [Ne, parse_eq_error_iff, parser_of_prelude h, bind_of_ok (take_of_le hle)]
  exact decisive_within (decisive_deltaPart _ _ _ _) _ _ _ missing

/-- The bytes that a window takes are those that its prelude states. -/
lemma size_of_prelude (h : preludePart i = .ok (p, j)) (hparse : parse i = .ok w) :
    w.size = p.windowSize := by
  obtain ⟨k, hk⟩ := parse_eq_ok_iff.1 hparse
  obtain ⟨hoffset, hstop⟩ := parser_size hk
  have hsize := preludePart_size h
  rw [parser_of_prelude h] at hk
  obtain ⟨delta, l, htake, hwithin⟩ := bind_eq_ok_iff.1 hk
  obtain ⟨-, hposition⟩ := length_of_take htake
  unfold within at hwithin
  split at hwithin
  · cases hwithin
    rw [size, Prelude.windowSize]
    omega
  · cases hwithin

/-- A prelude stands inside the bytes. -/
lemma offset_le_of_prelude {bytes : Bytes} {offset : Nat}
    (h : preludePart (.ofOffset bytes offset) = .ok (p, j)) : offset ≤ bytes.length := by
  by_contra hlt
  rw [preludePart_of_nil (List.drop_eq_nil_of_le (by omega))] at h
  cases h

end Window

end Vcdiff
