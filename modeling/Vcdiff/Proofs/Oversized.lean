import Vcdiff.Proofs.Faults
import Vcdiff.Proofs.Prelude
import Vcdiff.Proofs.Session

/-!
Windows that are too large. The prelude of a window states how many bytes it takes, so a session
can hold those against its limit before the rest of the window is there. It does so as long as the
window is not all there; a window that is all there is parsed first, and one whose delta encoding
is wrong is refused for that.
-/

namespace Vcdiff

namespace Session

variable {s : Session} {i j : Input} {p : Window.Prelude}

/-- A window that is not all there is refused for the size that its prelude states. -/
lemma openWindow_of_prelude_of_lt (h : Window.preludePart i = .ok (p, j)) (hgap : i.gap = 0)
    (hlt : j.rest.length < p.deltaLength) (hlarge : s.limits.encodedWindow < p.windowSize) :
    s.openWindow i = .error (.invalid
      (.encodedWindowTooLarge p.windowSize s.limits.encodedWindow)) := by
  have hsize : i.available + (p.deltaLength - j.rest.length : Nat) = p.windowSize := by
    obtain ⟨used, hrest, hposition, -⟩ := Window.stable_preludePart.loc i p j h
    have hprelude := Window.preludePart_size h
    have hlength : i.rest.length = p.size + j.rest.length := by
      rw [hrest, List.length_append]
      omega
    rw [Input.available, hgap, hlength, Window.Prelude.windowSize]
    omega
  rw [openWindow_of_incomplete_of_lt (Window.parse_of_prelude_of_lt h hlt) (by rwa [hsize]), hsize]

/-- One that is all there is refused for it only after it has been parsed. -/
lemma openWindow_of_prelude_of_ok {w : Window} (h : Window.preludePart i = .ok (p, j))
    (hparse : Window.parse i = .ok w) (hlarge : s.limits.encodedWindow < p.windowSize) :
    s.openWindow i = .error (.invalid
      (.encodedWindowTooLarge p.windowSize s.limits.encodedWindow)) := by
  have hsize := Window.size_of_prelude h hparse
  rw [openWindow_of_lt_size hparse (by rwa [hsize]), hsize]

/-- **Oversized windows.** A window whose prelude states more bytes than the limit is refused and
changes nothing. It is refused for its size, unless all of it is there and its delta encoding is
wrong: then it is refused for that, which is no matter of limits. -/
theorem decodeWindow_of_oversized {bytes : Bytes} {offset : Nat} (hheader : s.header.isSome)
    (h : Window.preludePart (.ofOffset bytes offset) = .ok (p, j))
    (hlarge : s.limits.encodedWindow < p.windowSize) :
    (∀ fault, Window.parse (.ofOffset bytes offset) = .error (.invalid fault) →
        p.deltaLength ≤ j.rest.length ∧ fault.kind ≠ .limitExceeded ∧
          s.decodeWindow (.ofOffset bytes offset) = (.error (.invalid fault), s)) ∧
      ((∀ fault, Window.parse (.ofOffset bytes offset) ≠ .error (.invalid fault)) →
        s.decodeWindow (.ofOffset bytes offset) = (.error (.invalid
          (.encodedWindowTooLarge p.windowSize s.limits.encodedWindow)), s)) := by
  refine ⟨fun fault hfault => ?_, fun hnone => ?_⟩
  · refine ⟨?_, (Window.ofFormat_of_parse hfault).1.1, ?_⟩
    · by_contra hlt
      rw [Window.parse_of_prelude_of_lt h (by omega)] at hfault
      cases hfault
    · exact decodeWindow_of_error hheader (openWindow_of_invalid hfault)
  · refine decodeWindow_of_error hheader ?_
    rcases Nat.lt_or_ge j.rest.length p.deltaLength with hlt | hle
    · have hgap := Input.gap_ofOffset (Window.offset_le_of_prelude h)
      exact openWindow_of_prelude_of_lt h hgap hlt hlarge
    · rcases hparse : Window.parse (.ofOffset bytes offset) with (missing | fault) | w
      · exact absurd hparse (Window.parse_of_prelude_of_le h hle missing)
      · exact absurd hparse (hnone fault)
      · exact openWindow_of_prelude_of_ok h hparse hlarge

/-- A header, and a window of seven bytes that says that its data section is compressed. -/
def compressedWindow : Bytes := [0xd6, 0xc3, 0xc4, 0, 0] ++ [0, 5, 0, 1, 0, 0, 0]

def sixBytes : Session :=
  ((start #[] (.ofOptions ample none none (some 6))).readHeader (.ofOffset compressedWindow 0)).2

/-- The last byte of the window tells the two refusals apart. -/
theorem decodeWindow_of_oversized_compressed :
    (sixBytes.decodeWindow (.ofOffset (compressedWindow.take 11) 5)).1
        = .error (.invalid (.encodedWindowTooLarge 7 6)) ∧
      (sixBytes.decodeWindow (.ofOffset compressedWindow 5)).1
        = .error (.invalid (.compressedSections 1)) := by
  have hheader : sixBytes.header.isSome := by decide +kernel
  have hlimit : sixBytes.limits.encodedWindow = 6 := rfl
  have hcut : Window.preludePart (.ofOffset (compressedWindow.take 11) 5)
      = .ok (⟨0, none, 5, 2⟩, ⟨7, [0, 1, 0, 0], 0⟩) := by decide +kernel
  have hwhole : Window.preludePart (.ofOffset compressedWindow 5)
      = .ok (⟨0, none, 5, 2⟩, ⟨7, [0, 1, 0, 0, 0], 0⟩) := by decide +kernel
  have hincomplete : Window.parse (.ofOffset (compressedWindow.take 11) 5)
      = .error (.incomplete 1) := by decide +kernel
  have hinvalid : Window.parse (.ofOffset compressedWindow 5)
      = .error (.invalid (.compressedSections 1)) := by decide +kernel
  constructor
  · rw [(decodeWindow_of_oversized hheader hcut (by decide)).2 fun fault => by simp [hincomplete]]
    rfl
  · rw [((decodeWindow_of_oversized hheader hwhole (by decide)).1 _ hinvalid).2.2]

/-- Not every oversized window is refused for its size. -/
theorem decodeWindow_of_oversized_not_limitExceeded :
    ¬ ∀ (s : Session) (bytes : Bytes) (offset : Nat) (p : Window.Prelude) (j : Input),
      s.header.isSome → Window.preludePart (.ofOffset bytes offset) = .ok (p, j) →
      s.limits.encodedWindow < p.windowSize →
        ∃ fault, (s.decodeWindow (.ofOffset bytes offset)).1 = .error (.invalid fault) ∧
          fault.kind = .limitExceeded := by
  intro hall
  have hprelude : Window.preludePart (.ofOffset compressedWindow 5)
      = .ok (⟨0, none, 5, 2⟩, ⟨7, [0, 1, 0, 0, 0], 0⟩) := by decide +kernel
  obtain ⟨fault, hfault, hkind⟩ :=
    hall sixBytes compressedWindow 5 _ _ (by decide +kernel) hprelude (by decide)
  have hfound : (sixBytes.decodeWindow (.ofOffset compressedWindow 5)).1
      = .error (.invalid (.compressedSections 1)) := by decide +kernel
  rw [hfound] at hfault
  cases hfault
  exact absurd hkind (by decide)

end Session

end Vcdiff
