import Vcdiff.Parser
import Vcdiff.Proofs.Varint

/-!
Parsing while bytes are still arriving. A stable parser gives what the bytes that it takes decide,
and its faults stay faults whatever follows; a patient one asks only for bytes without which it
does not end. Both are closed under sequencing, so a parser inherits them from its parts.
-/

namespace Vcdiff

namespace Input

def extend (i : Input) (more : Bytes) : Input := { i with rest := i.rest ++ more }

@[simp] lemma position_extend (i : Input) (more : Bytes) :
    (i.extend more).position = i.position := rfl

@[simp] lemma rest_extend (i : Input) (more : Bytes) : (i.extend more).rest = i.rest ++ more := rfl

@[simp] lemma gap_extend (i : Input) (more : Bytes) : (i.extend more).gap = i.gap := rfl

@[simp] lemma extend_nil (i : Input) : i.extend [] = i := by
  simp [extend]

lemma drop_extend {i : Input} {n : Nat} (h : n ≤ i.rest.length) (more : Bytes) :
    (i.extend more).drop n = (i.drop n).extend more := by
  simp [extend, drop, List.drop_append_of_le_length h]

end Input

namespace Parser

variable {α β : Type}

/-- What the parser gives is decided by the bytes that it takes. -/
def Local (p : Parser α) : Prop :=
  ∀ i a j, p i = .ok (a, j) →
    ∃ used, i.rest = used ++ j.rest ∧ j.position = i.position + used.length ∧ j.gap = i.gap ∧
      ∀ tail, p { i with rest := used ++ tail } = .ok (a, { j with rest := tail })

/-- No further bytes mend a fault. -/
def Final (p : Parser α) : Prop :=
  ∀ i fault, p i = .error (.invalid fault) →
    ∀ more, p (i.extend more) = .error (.invalid fault)

structure Stable (p : Parser α) : Prop where
  loc : Local p
  final : Final p

/-- Bytes that are asked for are missing indeed: without them the parser does not succeed, and
it never asks for fewer bytes in all than before. -/
def Patient (p : Parser α) : Prop :=
  ∀ i missing, p i = .error (.incomplete missing) →
    0 < missing ∧ ∀ more, match p (i.extend more) with
      | .ok _ => missing ≤ more.length
      | .error (.incomplete still) => missing ≤ more.length + still
      | .error (.invalid _) => True

def Decisive (p : Parser α) : Prop := ∀ i missing, p i ≠ .error (.incomplete missing)

lemma bind_eq_error_iff {p : Parser α} {f : α → Parser β} {i : Input} {halt : Halt} :
    (p >>= f) i = .error halt ↔
      p i = .error halt ∨ ∃ a j, p i = .ok (a, j) ∧ f a j = .error halt := by
  show Except.bind (p i) (fun x => f x.1 x.2) = .error halt ↔ _
  rcases p i with _ | ⟨a, j⟩
  · simp [Except.bind]
  · constructor
    · exact fun h => .inr ⟨a, j, rfl, h⟩
    · rintro (h | ⟨_, _, h1, h2⟩)
      · cases h
      · cases h1
        exact h2

lemma bind_of_ok {p : Parser α} {f : α → Parser β} {i j : Input} {a : α}
    (h : p i = .ok (a, j)) : (p >>= f) i = f a j := by
  show Except.bind (p i) (fun x => f x.1 x.2) = _
  rw [h]
  rfl

lemma bind_of_error {p : Parser α} {f : α → Parser β} {i : Input} {halt : Halt}
    (h : p i = .error halt) : (p >>= f) i = .error halt := by
  show Except.bind (p i) (fun x => f x.1 x.2) = _
  rw [h]
  rfl

/-- A result stays when more bytes come, and leaves them. -/
lemma Stable.extend {p : Parser α} (hp : Stable p) {i j : Input} {a : α} (h : p i = .ok (a, j))
    (more : Bytes) : p (i.extend more) = .ok (a, j.extend more) := by
  obtain ⟨used, hrest, -, -, htail⟩ := hp.loc i a j h
  have := htail (j.rest ++ more)
  rwa [← List.append_assoc, ← hrest] at this

/-! ### Sequences -/

lemma stable_pure (a : α) : Stable (pure a : Parser α) where
  loc := by
    intro i _ _ h
    cases h
    exact ⟨[], rfl, rfl, rfl, fun _ => rfl⟩
  final := by
    intro i _ h
    cases h

lemma stable_bind {p : Parser α} {f : α → Parser β} (hp : Stable p) (hf : ∀ a, Stable (f a)) :
    Stable (p >>= f) where
  loc := by
    intro i b k h
    obtain ⟨a, j, h1, h2⟩ := bind_eq_ok_iff.1 h
    obtain ⟨u, hu, hpos, hgap, hutail⟩ := hp.loc i a j h1
    obtain ⟨v, hv, hpos', hgap', hvtail⟩ := (hf a).loc j b k h2
    refine ⟨u ++ v, by rw [hu, hv, List.append_assoc], ?_, hgap'.trans hgap, fun tail => ?_⟩
    · rw [hpos', hpos, List.length_append, Nat.add_assoc]
    · rw [List.append_assoc]
      exact (bind_of_ok (hutail (v ++ tail))).trans (hvtail tail)
  final := by
    intro i fault h more
    rcases bind_eq_error_iff.1 h with h1 | ⟨a, j, h1, h2⟩
    · exact bind_of_error (hp.final i fault h1 more)
    · rw [bind_of_ok (hp.extend h1 more)]
      exact (hf a).final j fault h2 more

lemma stable_map {p : Parser α} (f : α → β) (hp : Stable p) : Stable (f <$> p) := by
  rw [← bind_pure_comp]
  exact stable_bind hp fun a => stable_pure (f a)

lemma patient_pure (a : α) : Patient (pure a : Parser α) := by
  intro i _ h
  cases h

lemma patient_bind {p : Parser α} {f : α → Parser β} (hs : Stable p) (hp : Patient p)
    (hf : ∀ a, Patient (f a)) : Patient (p >>= f) := by
  intro i missing h
  rcases bind_eq_error_iff.1 h with h1 | ⟨a, j, h1, h2⟩
  · obtain ⟨hpos, hmore⟩ := hp i missing h1
    refine ⟨hpos, fun more => ?_⟩
    have hm := hmore more
    rcases hi : p (i.extend more) with (still | fault) | ⟨a, j⟩
    · rw [bind_of_error hi]
      simpa [hi] using hm
    · rw [bind_of_error hi]
      trivial
    · -- `p` ends only when the bytes it asked for are there, so `f` may ask for any number
      have hle : missing ≤ more.length := by simpa [hi] using hm
      rw [bind_of_ok hi]
      split
      · exact hle
      · omega
      · trivial
  · obtain ⟨hpos, hmore⟩ := hf a j missing h2
    refine ⟨hpos, fun more => ?_⟩
    rw [bind_of_ok (hs.extend h1 more)]
    exact hmore more

lemma decisive_pure (a : α) : Decisive (pure a : Parser α) := by
  intro i _ h
  cases h

lemma decisive_bind {p : Parser α} {f : α → Parser β} (hp : Decisive p)
    (hf : ∀ a, Decisive (f a)) : Decisive (p >>= f) := by
  intro i missing h
  rcases bind_eq_error_iff.1 h with h1 | ⟨a, j, -, h2⟩
  · exact hp i missing h1
  · exact hf a j missing h2

lemma Decisive.patient {p : Parser α} (hp : Decisive p) : Patient p :=
  fun i missing h => absurd h (hp i missing)

/-! ### How many bytes a parser takes -/

def Takes (n : Nat) (p : Parser α) : Prop :=
  ∀ i a j, p i = .ok (a, j) → i.position + n ≤ j.position

lemma Stable.takes {p : Parser α} (hp : Stable p) : Takes 0 p := by
  intro i a j h
  obtain ⟨used, -, hpos, -⟩ := hp.loc i a j h
  omega

lemma takes_bind {m n : Nat} {p : Parser α} {f : α → Parser β} (hp : Takes m p)
    (hf : ∀ a, Takes n (f a)) : Takes (m + n) (p >>= f) := by
  intro i b k h
  obtain ⟨a, j, h1, h2⟩ := bind_eq_ok_iff.1 h
  have := hp i a j h1
  have := hf a j b k h2
  omega

lemma Takes.mono {m n : Nat} {p : Parser α} (hp : Takes n p) (h : m ≤ n) : Takes m p :=
  fun i a j hok => Nat.le_trans (Nat.add_le_add_left h _) (hp i a j hok)

/-! ### Single parsers -/

lemma stable_position : Stable position where
  loc := by
    intro i _ _ h
    cases h
    exact ⟨[], rfl, rfl, rfl, fun _ => rfl⟩
  final := by
    intro i _ h
    cases h

lemma decisive_position : Decisive position := by
  intro i _ h
  cases h

lemma decisive_ahead : Decisive ahead := by
  intro i _ h
  cases h

lemma stable_failIf (c : Prop) [Decidable c] (fault : Fault) : Stable (failIf c fault) where
  loc := by
    intro i _ _ h
    obtain ⟨hc, h⟩ := failIf_eq_ok_iff.1 h
    cases h
    exact ⟨[], rfl, rfl, rfl, fun _ => failIf_eq_ok_iff.2 ⟨hc, rfl⟩⟩
  final := by
    intro i _ h more
    unfold failIf at h ⊢
    split at h
    · rename_i hc
      rw [if_pos hc]
      exact h
    · cases h

lemma decisive_failIf (c : Prop) [Decidable c] (fault : Fault) : Decisive (failIf c fault) := by
  intro i missing h
  unfold failIf at h
  split at h <;> cases h

lemma byte_cons (unit position gap : Nat) (b : UInt8) (rest : Bytes) :
    byte unit ⟨position, b :: rest, gap⟩ = .ok (b, ⟨position + 1, rest, gap⟩) := rfl

lemma stable_byte (unit : Nat) : Stable (byte unit) where
  loc := by
    rintro ⟨position, rest, gap⟩ b j h
    rcases rest with _ | ⟨c, rest⟩
    · cases h
    · rw [byte_cons] at h
      cases h
      exact ⟨[b], rfl, rfl, rfl, fun tail => rfl⟩
  final := by
    rintro ⟨position, rest, gap⟩ fault h
    rcases rest with _ | ⟨c, rest⟩ <;> cases h

lemma takes_byte (unit : Nat) : Takes 1 (byte unit) := by
  rintro ⟨position, rest, gap⟩ b j h
  rcases rest with _ | ⟨c, rest⟩
  · cases h
  · rw [byte_cons] at h
    cases h
    exact Nat.le_refl _

/-- A single byte is missing only when there is none. -/
lemma patient_byte : Patient (byte 1) := by
  rintro ⟨position, rest, gap⟩ missing h
  rcases rest with _ | ⟨c, rest⟩
  · cases h
    refine ⟨Nat.one_pos, fun more => ?_⟩
    rcases more with _ | ⟨b, more⟩
    · exact Nat.le_add_left 1 0
    · exact Nat.le_add_left 1 more.length
  · cases h

lemma need_of_le {n : Nat} {i : Input} (h : n ≤ i.rest.length) : need n i = .ok ((), i) :=
  need_eq_ok_iff.2 ⟨h, rfl⟩

lemma need_of_lt {n : Nat} {i : Input} (h : i.rest.length < n) :
    need n i = .error (.incomplete (n - i.rest.length)) := by
  simp [need, Nat.min_eq_right (Nat.le_of_lt h), h]

lemma take_of_le {n : Nat} {i : Input} (h : n ≤ i.rest.length) :
    take n i = .ok (i.rest.take n, i.drop n) :=
  bind_of_ok (need_of_le h)

lemma take_of_lt {n : Nat} {i : Input} (h : i.rest.length < n) :
    take n i = .error (.incomplete (n - i.rest.length)) :=
  bind_of_error (need_of_lt h)

lemma stable_take (n : Nat) : Stable (take n) where
  loc := by
    intro i a j h
    rcases Nat.lt_or_ge i.rest.length n with hlt | hle
    · rw [take_of_lt hlt] at h
      cases h
    · rw [take_of_le hle] at h
      cases h
      have hlen : (i.rest.take n).length = n := by rw [List.length_take, Nat.min_eq_left hle]
      refine ⟨i.rest.take n, (List.take_append_drop n _).symm, by rw [hlen]; rfl, rfl,
        fun tail => ?_⟩
      rw [take_of_le (by simp only [List.length_append, hlen]; omega)]
      simp only [Input.drop, List.take_left' hlen, List.drop_left' hlen]
  final := by
    intro i fault h
    rcases Nat.lt_or_ge i.rest.length n with hlt | hle
    · rw [take_of_lt hlt] at h
      cases h
    · rw [take_of_le hle] at h
      cases h

lemma length_of_take {n : Nat} {i j : Input} {bytes : Bytes} (h : take n i = .ok (bytes, j)) :
    bytes.length = n ∧ j.position = i.position + n := by
  obtain ⟨_, _, h1, h2⟩ := bind_eq_ok_iff.1 h
  obtain ⟨hn, h1⟩ := need_eq_ok_iff.1 h1
  cases h1
  cases h2
  exact ⟨by rw [List.length_take, Nat.min_eq_left hn], rfl⟩

lemma rest_of_take {n : Nat} {i j : Input} {bytes : Bytes} (h : take n i = .ok (bytes, j)) :
    i.rest = bytes ++ j.rest := by
  obtain ⟨_, _, h1, h2⟩ := bind_eq_ok_iff.1 h
  obtain ⟨-, h1⟩ := need_eq_ok_iff.1 h1
  cases h1
  cases h2
  exact (List.take_append_drop n _).symm

lemma takes_take (n : Nat) : Takes n (take n) := by
  intro i a j h
  exact Nat.le_of_eq (length_of_take h).2.symm

lemma patient_take (n : Nat) : Patient (take n) := by
  intro i missing h
  rcases Nat.lt_or_ge i.rest.length n with hlt | hle
  · rw [take_of_lt hlt] at h
    cases h
    refine ⟨by omega, fun more => ?_⟩
    have hlen : (i.extend more).rest.length = i.rest.length + more.length := by simp
    rcases Nat.lt_or_ge (i.extend more).rest.length n with hlt' | hle'
    · rw [take_of_lt hlt']
      dsimp only
      omega
    · rw [take_of_le hle']
      dsimp only
      omega
  · rw [take_of_le hle] at h
    cases h

lemma varint_of_value {i : Input} {n size : Nat} {rest : Bytes}
    (h : Varint.scan Varint.maxValue i.rest = .value n size rest) :
    varint i = .ok (n, { i with position := i.position + size, rest }) := by
  simp [varint, h]

lemma varint_of_cutOff {i : Input} (h : Varint.scan Varint.maxValue i.rest = .cutOff) :
    varint i = .error (.incomplete 1) := by
  simp [varint, h]

lemma varint_of_tooLarge {i : Input} (h : Varint.scan Varint.maxValue i.rest = .tooLarge) :
    varint i = .error (.invalid (.varintTooLarge i.position Varint.maxValue)) := by
  simp [varint, h]

lemma stable_varint : Stable varint where
  loc := by
    intro i a j h
    rcases hs : Varint.scan Varint.maxValue i.rest with ⟨n, size, rest⟩ | _ | _
    · rw [varint_of_value hs] at h
      cases h
      obtain ⟨used, hrest, -, rfl, htail⟩ := Varint.scan_local hs
      exact ⟨used, hrest, rfl, rfl, fun tail => varint_of_value (htail tail)⟩
    · rw [varint_of_tooLarge hs] at h
      cases h
    · rw [varint_of_cutOff hs] at h
      cases h
  final := by
    intro i fault h more
    rcases hs : Varint.scan Varint.maxValue i.rest with ⟨n, size, rest⟩ | _ | _
    · rw [varint_of_value hs] at h
      cases h
    · rw [varint_of_tooLarge hs] at h
      cases h
      exact varint_of_tooLarge (Varint.scan_tooLarge hs more)
    · rw [varint_of_cutOff hs] at h
      cases h

/-- A number that is cut off asks for one more byte at a time. -/
lemma patient_varint : Patient varint := by
  intro i missing h
  rcases hs : Varint.scan Varint.maxValue i.rest with ⟨n, size, rest⟩ | _ | _
  · rw [varint_of_value hs] at h
    cases h
  · rw [varint_of_tooLarge hs] at h
    cases h
  · rw [varint_of_cutOff hs] at h
    cases h
    refine ⟨Nat.one_pos, fun more => ?_⟩
    rcases more with _ | ⟨b, more⟩
    · rw [Input.extend_nil, varint_of_cutOff hs]
      exact Nat.le_add_left 1 0
    · split
      · exact Nat.le_add_left 1 more.length
      · simp only [List.length_cons]
        omega
      · trivial

/-- To look ahead for bytes is no more than to take them, where they are taken next. -/
lemma stable_need_bind {n : Nat} {p : Parser α} (hp : Stable p) (hn : Takes n p) :
    Stable (need n >>= fun _ => p) where
  loc := by
    intro i a j h
    obtain ⟨_, _, h1, h2⟩ := bind_eq_ok_iff.1 h
    obtain ⟨-, h1⟩ := need_eq_ok_iff.1 h1
    cases h1
    obtain ⟨used, hrest, hpos, hgap, htail⟩ := hp.loc i a j h2
    have hle := hn i a j h2
    refine ⟨used, hrest, hpos, hgap, fun tail => ?_⟩
    rw [bind_of_ok (need_of_le (by simp only [List.length_append]; omega))]
    exact htail tail
  final := by
    intro i fault h more
    rcases bind_eq_error_iff.1 h with h1 | ⟨_, _, h1, h2⟩
    · rcases Nat.lt_or_ge i.rest.length n with hlt | hle
      · rw [need_of_lt hlt] at h1
        cases h1
      · rw [need_of_le hle] at h1
        cases h1
    · obtain ⟨hle, h1⟩ := need_eq_ok_iff.1 h1
      cases h1
      rw [bind_of_ok (need_of_le (by rw [Input.rest_extend, List.length_append]; omega))]
      exact hp.final i fault h2 more

lemma decisive_orFault (p : Parser α) (fault : Fault) : Decisive (p.orFault fault) := by
  intro i missing h
  unfold orFault at h
  split at h
  · cases h
  · rename_i hne
    exact hne _ h

lemma within_of_ok {start : Nat} {bytes : Bytes} {p : Parser α} {a : α} {j : Input} (i : Input)
    (h : p (.ofBytes start bytes) = .ok (a, j)) : within start bytes p i = .ok (a, i) := by
  simp [within, h]

lemma within_of_error {start : Nat} {bytes : Bytes} {p : Parser α} {halt : Halt} (i : Input)
    (h : p (.ofBytes start bytes) = .error halt) : within start bytes p i = .error halt := by
  simp [within, h]

lemma stable_within (start : Nat) (bytes : Bytes) (p : Parser α) :
    Stable (within start bytes p) where
  loc := by
    intro i a j h
    rcases hp : p (.ofBytes start bytes) with halt | ⟨b, k⟩
    · rw [within_of_error i hp] at h
      cases h
    · rw [within_of_ok i hp] at h
      cases h
      exact ⟨[], rfl, rfl, rfl, fun tail => within_of_ok _ hp⟩
  final := by
    intro i fault h more
    rcases hp : p (.ofBytes start bytes) with halt | ⟨b, k⟩
    · rw [within_of_error i hp] at h
      cases h
      exact within_of_error _ hp
    · rw [within_of_ok i hp] at h
      cases h

lemma decisive_within {p : Parser α} (hp : Decisive p) (start : Nat) (bytes : Bytes) :
    Decisive (within start bytes p) := by
  intro i missing h
  rcases hb : p (.ofBytes start bytes) with halt | ⟨b, k⟩
  · rw [within_of_error i hb] at h
    cases h
    exact hp _ _ hb
  · rw [within_of_ok i hb] at h
    cases h

end Parser

end Vcdiff
