import Vcdiff.Proofs.DeltaTrace
import Vcdiff.Proofs.Prelude

/-!
Asking again. A parser of a delta that is still arriving is asked again at the same offset once
more bytes have come. What it has given then stays, and so do its faults; and it never asks for
more bytes than it needs, so that whoever waits for them waits for nothing that is not missing.
-/

namespace Vcdiff

namespace Parser

variable {α β : Type}

/-- Bytes that are asked for are needed: no fewer of them make the parser succeed. -/
def Modest (p : Parser α) : Prop :=
  ∀ i missing, p i = .error (.incomplete missing) →
    0 < missing ∧ ∀ more a j, p (i.extend more) = .ok (a, j) → missing ≤ more.length

lemma Patient.modest {p : Parser α} (hp : Patient p) : Modest p := by
  intro i missing h
  obtain ⟨hpos, hmore⟩ := hp i missing h
  refine ⟨hpos, fun more a j hok => ?_⟩
  simpa only [hok] using hmore more

lemma modest_bind {p : Parser α} {f : α → Parser β} (hs : Stable p) (hp : Modest p)
    (hf : ∀ a, Modest (f a)) : Modest (p >>= f) := by
  intro i missing h
  rcases bind_eq_error_iff.1 h with h1 | ⟨a, j, h1, h2⟩
  · obtain ⟨hpos, hmore⟩ := hp i missing h1
    refine ⟨hpos, fun more b k hok => ?_⟩
    obtain ⟨a, j, hok, -⟩ := bind_eq_ok_iff.1 hok
    exact hmore more a j hok
  · obtain ⟨hpos, hmore⟩ := hf a j missing h2
    refine ⟨hpos, fun more b k hok => ?_⟩
    rw [bind_of_ok (hs.extend h1 more)] at hok
    exact hmore more b k hok

lemma modest_map {p : Parser α} (f : α → β) (hs : Stable p) (hp : Modest p) :
    Modest (f <$> p) := by
  rw [← bind_pure_comp]
  exact modest_bind hs hp fun a => (patient_pure (f a)).modest

/-- A parser that ends has taken its bytes from those that were there. -/
lemma Stable.takes_le {n : Nat} {p : Parser α} (hs : Stable p) (hn : Takes n p) {i j : Input}
    {a : α} (h : p i = .ok (a, j)) : n ≤ i.rest.length := by
  obtain ⟨used, hrest, hpos, -⟩ := hs.loc i a j h
  have hle := hn i a j h
  rw [hrest, List.length_append]
  omega

/-- A byte that is the first of several may ask for all of them, where they are taken next. -/
lemma modest_byte_bind {n : Nat} {f : UInt8 → Parser β} (hs : ∀ b, Stable (f b))
    (hm : ∀ b, Modest (f b)) (ht : ∀ b, Takes n (f b)) : Modest (byte (n + 1) >>= f) := by
  rintro ⟨position, rest, gap⟩ missing h
  rcases rest with _ | ⟨b, rest⟩
  · cases h
    refine ⟨Nat.succ_pos n, fun more a j hok => ?_⟩
    have hle := (stable_bind (stable_byte (n + 1)) hs).takes_le (takes_bind (takes_byte _) ht) hok
    rw [Input.rest_extend, List.nil_append] at hle
    omega
  · rw [bind_of_ok (byte_cons (n + 1) position gap b rest)] at h
    obtain ⟨hpos, hmore⟩ := hm b _ missing h
    exact ⟨hpos, fun more a j hok => hmore more a j hok⟩

lemma takes_need (n : Nat) : Takes 0 (need n) := by
  intro i a j h
  obtain ⟨-, h⟩ := need_eq_ok_iff.1 h
  cases h
  exact Nat.le_refl _

lemma modest_need_bind {n : Nat} {p : Parser α} (hp : Modest p) :
    Modest (need n >>= fun _ => p) := by
  intro i missing h
  rcases Nat.lt_or_ge i.rest.length n with hlt | hle
  · rw [bind_of_error (need_of_lt hlt)] at h
    cases h
    refine ⟨by omega, fun more a j hok => ?_⟩
    obtain ⟨_, _, hneed, -⟩ := bind_eq_ok_iff.1 hok
    have hn := (need_eq_ok_iff.1 hneed).1
    rw [Input.rest_extend, List.length_append] at hn
    omega
  · rw [bind_of_ok (need_of_le hle)] at h
    obtain ⟨hpos, hmore⟩ := hp i missing h
    refine ⟨hpos, fun more a j hok => hmore more a j ?_⟩
    rwa [bind_of_ok (need_of_le (by rw [Input.rest_extend, List.length_append]; omega))] at hok

end Parser

open Vcdiff.Parser

/-! ### The file header -/

namespace FileHeader

lemma takes_expect (unit : Nat) (expected : Bytes) :
    Takes expected.length (expect unit expected) := by
  induction expected generalizing unit with
  | nil => exact (stable_pure ()).takes
  | cons b expected ih =>
    refine (takes_bind (takes_byte unit) fun _ => takes_bind (stable_failIf _ _).takes
      fun _ => ih _).mono ?_
    rw [List.length_cons]
    omega

/-- The bytes of a signature may ask for those that follow the signature, too. -/
lemma modest_expect_bind {β : Type} {n : Nat} {p : Parser β} (hs : Stable p) (hm : Modest p)
    (ht : Takes n p) (expected : Bytes) :
    Modest (expect (expected.length + n) expected >>= fun _ => p) := by
  induction expected with
  | nil => exact hm
  | cons b expected ih =>
    have hunit : (b :: expected).length + n = expected.length + n + 1 := by
      rw [List.length_cons]
      omega
    rw [hunit, expect, bind_assoc]
    refine modest_byte_bind (fun _ => ?_) (fun _ => ?_) fun _ => ?_
    · exact stable_bind (stable_bind (stable_failIf _ _) fun _ => stable_expect _ _) fun _ => hs
    · rw [bind_assoc]
      exact modest_bind (stable_failIf _ _) (decisive_failIf _ _).patient.modest fun _ => ih
    · refine (takes_bind (takes_bind (stable_failIf _ _).takes fun _ => takes_expect _ _)
        fun _ => ht).mono ?_
      omega

def indicatorPart : Parser UInt8 := do
  let indicator ← byte 1
  failIf (7 < indicator) (.badHeaderIndicator indicator)
  failIf (indicator &&& compressionBit ≠ 0) .compressedFile
  return indicator

def versionPart : Parser UInt8 := do
  let found ← byte 2
  failIf (found ≠ version) (.unsupportedVersion found)
  indicatorPart

lemma fixedPart_eq :
    fixedPart = expect (signature.length + 2) signature >>= fun _ => need 2 >>= fun _ =>
      versionPart := rfl

lemma stable_indicatorPart : Stable indicatorPart :=
  stable_bind (stable_byte 1) fun _ => stable_bind (stable_failIf _ _) fun _ =>
    stable_bind (stable_failIf _ _) fun _ => stable_pure _

lemma takes_indicatorPart : Takes 1 indicatorPart :=
  takes_bind (n := 0) (takes_byte 1) fun _ => (stable_bind (stable_failIf _ _) fun _ =>
    stable_bind (stable_failIf _ _) fun _ => stable_pure _).takes

lemma modest_indicatorPart : Modest indicatorPart :=
  modest_bind (stable_byte 1) patient_byte.modest fun _ =>
    (decisive_bind (decisive_failIf _ _) fun _ => decisive_bind (decisive_failIf _ _) fun _ =>
      decisive_pure _).patient.modest

lemma takes_versionPart : Takes 2 versionPart :=
  takes_bind (n := 1) (takes_byte 2) fun _ => takes_bind (m := 0) (stable_failIf _ _).takes
    fun _ => takes_indicatorPart

lemma modest_versionPart : Modest versionPart := by
  refine modest_byte_bind (fun _ => ?_) (fun _ => ?_) fun _ => ?_
  · exact stable_bind (stable_failIf _ _) fun _ => stable_indicatorPart
  · exact modest_bind (stable_failIf _ _) (decisive_failIf _ _).patient.modest
      fun _ => modest_indicatorPart
  · exact takes_bind (m := 0) (stable_failIf _ _).takes fun _ => takes_indicatorPart

lemma takes_need_versionPart : Takes 2 (need 2 >>= fun _ => versionPart) :=
  takes_bind (m := 0) (takes_need 2) fun _ => takes_versionPart

lemma takes_fixedPart : Takes fixedSize fixedPart :=
  takes_bind (n := 2) (takes_expect _ signature) fun _ => takes_need_versionPart

lemma modest_fixedPart : Modest fixedPart := by
  rw [fixedPart_eq]
  exact modest_expect_bind stable_versionPart (modest_need_bind modest_versionPart)
    takes_need_versionPart signature

lemma modest_tableSection : Modest tableSection := by
  refine modest_bind stable_varint patient_varint.modest fun length =>
    modest_bind (stable_failIf _ _) (decisive_failIf _ _).patient.modest fun _ =>
    modest_need_bind (modest_byte_bind (fun _ => ?_) (fun _ => ?_) fun _ => ?_)
  · exact stable_bind (stable_byte 1) fun _ => stable_bind (stable_take _) fun _ => stable_pure _
  · exact modest_bind (stable_byte 1) patient_byte.modest fun _ =>
      modest_bind (stable_take _) (patient_take _).modest fun _ => (patient_pure _).modest
  · exact takes_bind (n := 0) (takes_byte 1) fun _ =>
      (stable_bind (stable_take _) fun _ => stable_pure _).takes

lemma modest_tablePart (indicator : UInt8) : Modest (tablePart indicator) := by
  unfold tablePart
  split
  · exact (patient_pure none).modest
  · exact modest_map some stable_tableSection modest_tableSection

lemma modest_applicationPart (indicator : UInt8) : Modest (applicationPart indicator) := by
  unfold applicationPart
  split
  · exact (patient_pure none).modest
  · exact modest_map some (stable_bind stable_varint stable_take)
      (modest_bind stable_varint patient_varint.modest fun n => (patient_take n).modest)

lemma parser_modest : Modest parser :=
  modest_bind stable_position decisive_position.patient.modest fun _ =>
    modest_bind stable_fixedPart modest_fixedPart fun _ =>
    modest_bind (stable_tablePart _) (modest_tablePart _) fun _ =>
    modest_bind (stable_applicationPart _) (modest_applicationPart _) fun _ =>
    modest_bind stable_position decisive_position.patient.modest fun _ => (patient_pure _).modest

lemma takes_fixedSize : Takes fixedSize parser :=
  takes_bind (m := 0) stable_position.takes fun _ => takes_bind (n := 0) takes_fixedPart fun _ =>
    (stable_bind (stable_tablePart _) fun _ => stable_bind (stable_applicationPart _) fun _ =>
      stable_bind stable_position fun _ => stable_pure _).takes

end FileHeader

/-! ### At an offset of what has arrived -/

namespace FileHeader

lemma parse_of_gap {i : Input} (h : 0 < i.gap) :
    parse i = .error (.incomplete (i.gap + fixedSize)) :=
  if_pos h

lemma parse_eq_error_iff {i : Input} (hgap : i.gap = 0) {halt : Halt} :
    parse i = .error halt ↔ parser i = .error halt := by
  rw [parse, if_neg (by omega)]
  rcases parser i with found | ⟨header, j⟩ <;> simp [Functor.map, Except.map]

lemma parse_extend {i : Input} (hgap : i.gap = 0) {header : FileHeader} (h : parse i = .ok header)
    (more : Bytes) : parse (i.extend more) = .ok header := by
  obtain ⟨j, hj⟩ := (parse_eq_ok_iff hgap).1 h
  exact (parse_eq_ok_iff (i := i.extend more) hgap).2 ⟨_, parser_stable.extend hj more⟩

/-- A header is never shorter than its fixed part. -/
lemma fixedSize_le_of_parse {i : Input} (hgap : i.gap = 0) {header : FileHeader}
    (h : parse i = .ok header) : fixedSize ≤ i.rest.length := by
  obtain ⟨j, hj⟩ := (parse_eq_ok_iff hgap).1 h
  exact parser_stable.takes_le takes_fixedSize hj

end FileHeader

namespace Window

lemma parse_extend {i : Input} {w : Window} (h : parse i = .ok w) (more : Bytes) :
    parse (i.extend more) = .ok w := by
  obtain ⟨j, hj⟩ := parse_eq_ok_iff.1 h
  exact parse_eq_ok_iff.2 ⟨_, parser_stable.extend hj more⟩

lemma parse_of_nil {i : Input} (h : i.rest = []) : parse i = .error (.incomplete 1) := by
  rcases i with ⟨position, rest, gap⟩
  subst h
  rfl

end Window

/-- What a parser keeps to that reads at an offset of the bytes that have arrived so far: neither
what it gives nor a fault of it changes when more arrive, and when it asks for bytes, fewer than
those do not help. -/
structure Resumable {α : Type} (parse : Input → Except Halt α) : Prop where
  ok : ∀ bytes offset a, parse (.ofOffset bytes offset) = .ok a →
    ∀ more, parse (.ofOffset (bytes ++ more) offset) = .ok a
  invalid : ∀ bytes offset fault, parse (.ofOffset bytes offset) = .error (.invalid fault) →
    ∀ more, parse (.ofOffset (bytes ++ more) offset) = .error (.invalid fault)
  incomplete : ∀ bytes offset missing,
    parse (.ofOffset bytes offset) = .error (.incomplete missing) →
      0 < missing ∧ ∀ more, more.length < missing →
        ∀ a, parse (.ofOffset (bytes ++ more) offset) ≠ .ok a

/-- It is enough to look at offsets inside the bytes, and apart from that at those beyond them. -/
lemma Resumable.of_extend {α : Type} {parse : Input → Except Halt α}
    (hok : ∀ i a, i.gap = 0 → parse i = .ok a → ∀ more, parse (i.extend more) = .ok a)
    (hinvalid : ∀ i fault, i.gap = 0 → parse i = .error (.invalid fault) →
      ∀ more, parse (i.extend more) = .error (.invalid fault))
    (hincomplete : ∀ i missing, i.gap = 0 → parse i = .error (.incomplete missing) →
      0 < missing ∧ ∀ more a, parse (i.extend more) = .ok a → missing ≤ more.length)
    (hbeyond : ∀ bytes offset, bytes.length < offset → ∃ missing,
      parse (.ofOffset bytes offset) = .error (.incomplete missing) ∧ 0 < missing ∧
        ∀ more a, parse (.ofOffset (bytes ++ more) offset) = .ok a → missing ≤ more.length) :
    Resumable parse where
  ok bytes offset a h more := by
    rcases Nat.lt_or_ge bytes.length offset with hlt | hle
    · obtain ⟨missing, hmissing, -⟩ := hbeyond bytes offset hlt
      rw [hmissing] at h
      cases h
    · rw [Input.ofOffset_append hle]
      exact hok _ a (Input.gap_ofOffset hle) h more
  invalid bytes offset fault h more := by
    rcases Nat.lt_or_ge bytes.length offset with hlt | hle
    · obtain ⟨missing, hmissing, -⟩ := hbeyond bytes offset hlt
      rw [hmissing] at h
      cases h
    · rw [Input.ofOffset_append hle]
      exact hinvalid _ fault (Input.gap_ofOffset hle) h more
  incomplete bytes offset missing h := by
    rcases Nat.lt_or_ge bytes.length offset with hlt | hle
    · obtain ⟨found, hfound, hpos, hmore⟩ := hbeyond bytes offset hlt
      rw [hfound] at h
      cases h
      exact ⟨hpos, fun more hlt a hok => absurd (hmore more a hok) (Nat.not_le.2 hlt)⟩
    · obtain ⟨hpos, hmore⟩ := hincomplete _ missing (Input.gap_ofOffset hle) h
      refine ⟨hpos, fun more hlt a hok => ?_⟩
      rw [Input.ofOffset_append hle] at hok
      exact absurd (hmore more a hok) (Nat.not_le.2 hlt)

theorem FileHeader.resumable : Resumable FileHeader.parse := by
  refine .of_extend (fun i header hgap h more => parse_extend hgap h more)
    (fun i fault _ h more => parse_final h more) (fun i missing hgap h => ?_)
    fun bytes offset hlt => ?_
  · obtain ⟨hpos, hmodest⟩ := parser_modest i missing ((parse_eq_error_iff hgap).1 h)
    refine ⟨hpos, fun more header hok => ?_⟩
    obtain ⟨j, hj⟩ := (parse_eq_ok_iff (i := i.extend more) hgap).1 hok
    exact hmodest more header j hj
  · refine ⟨_, parse_of_gap (Nat.sub_pos_of_lt hlt), Nat.succ_pos _, fun more header hok => ?_⟩
    -- a header that succeeds has its fixed part after the offset
    rcases Nat.lt_or_ge (bytes ++ more).length offset with hlt' | hle'
    · rw [parse_of_gap (Nat.sub_pos_of_lt hlt')] at hok
      cases hok
    · have hfixed := fixedSize_le_of_parse (Input.gap_ofOffset hle') hok
      simp only [Input.ofOffset, List.length_drop, List.length_append] at hfixed hle' ⊢
      omega

theorem Window.resumable : Resumable Window.parse := by
  refine .of_extend (fun i w _ h more => parse_extend h more)
    (fun i fault _ h more => parse_final h more) (fun i missing _ h => ?_)
    fun bytes offset hlt => ?_
  · obtain ⟨hpos, hmodest⟩ := parser_patient.modest i missing (parse_eq_error_iff.1 h)
    refine ⟨hpos, fun more w hok => ?_⟩
    obtain ⟨j, hj⟩ := parse_eq_ok_iff.1 hok
    exact hmodest more w j hj
  · have hnil := List.drop_eq_nil_of_le (Nat.le_of_lt hlt)
    refine ⟨1, parse_of_nil hnil, Nat.one_pos, fun more w hok => ?_⟩
    rcases more with _ | ⟨b, more⟩
    · rw [List.append_nil, parse_of_nil hnil] at hok
      cases hok
    · exact Nat.le_add_left 1 more.length

namespace Window

/-- A window whose prelude is there asks for all of the rest at once. -/
lemma parse_append_of_prelude {bytes more : Bytes} {offset missing : Nat} {p : Prelude}
    {j : Input} (h : preludePart (.ofOffset bytes offset) = .ok (p, j))
    (hparse : parse (.ofOffset bytes offset) = .error (.incomplete missing))
    (hle : missing ≤ more.length) (still : Nat) :
    parse (.ofOffset (bytes ++ more) offset) ≠ .error (.incomplete still) := by
  have hoffset := offset_le_of_prelude h
  have hshort : j.rest.length < p.deltaLength := by
    by_contra hlong
    exact parse_of_prelude_of_le h (by omega) missing hparse
  rw [parse_of_prelude_of_lt h hshort] at hparse
  cases hparse
  rw [Input.ofOffset_append hoffset]
  refine parse_of_prelude_of_le (stable_preludePart.extend h more) ?_ still
  rw [Input.rest_extend, List.length_append]
  omega

end Window

/-- **Asking again.** Both parsers can be asked again when more bytes have come. A window whose
delta length is there asks once more at most: with the bytes that it asks for it is complete, or
wrong. -/
theorem parse_resumable :
    Resumable FileHeader.parse ∧ Resumable Window.parse ∧
      ∀ (bytes more : Bytes) (offset missing : Nat) (p : Window.Prelude) (j : Input),
        Window.preludePart (.ofOffset bytes offset) = .ok (p, j) →
        Window.parse (.ofOffset bytes offset) = .error (.incomplete missing) →
        missing ≤ more.length → ∀ still,
          Window.parse (.ofOffset (bytes ++ more) offset) ≠ .error (.incomplete still) :=
  ⟨FileHeader.resumable, Window.resumable, fun _ _ _ _ _ _ h hparse hle =>
    Window.parse_append_of_prelude h hparse hle⟩

/-- The signature is cut off after two bytes, and the second window after its delta length. -/
theorem parse_resumable_twoWindows :
    (∀ more : Bytes, more.length < 3 → ∀ header,
        FileHeader.parse (.ofOffset (twoWindows.take 2 ++ more) 0) ≠ .ok header) ∧
      Window.parse (.ofOffset (twoWindows.take 25) 19) = .error (.incomplete 9) ∧
      ∀ (more : Bytes) (still : Nat), 9 ≤ more.length →
        Window.parse (.ofOffset (twoWindows.take 25 ++ more) 19)
          ≠ .error (.incomplete still) := by
  have hheader : FileHeader.parse (.ofOffset (twoWindows.take 2) 0) = .error (.incomplete 3) := by
    decide +kernel
  have hwindow : Window.parse (.ofOffset (twoWindows.take 25) 19) = .error (.incomplete 9) := by
    decide +kernel
  have hprelude : Window.preludePart (.ofOffset (twoWindows.take 25) 19)
      = .ok (⟨5, some ⟨.dictionary, 0, 5⟩, 11, 4⟩, ⟨23, [4, 0], 0⟩) := by
    decide +kernel
  refine ⟨(parse_resumable.1.incomplete _ _ _ hheader).2, hwindow, fun more still hle => ?_⟩
  exact parse_resumable.2.2 _ more 19 9 _ _ hprelude hwindow hle still

end Vcdiff
