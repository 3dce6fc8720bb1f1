import Vcdiff.Proofs.Incremental
import Vcdiff.Proofs.Replay
import Vcdiff.Session

/-!
What one call of a session does: which of its parts a window may change, and what becomes of the
answer when more bytes follow in the input.
-/

namespace Vcdiff

namespace Limits

variable {l : Limits} {size : Int}

lemma checkEncoded_of_le (h : size ≤ l.encodedWindow) : l.checkEncoded size = .ok () :=
  if_neg (by omega)

lemma checkEncoded_of_lt (h : l.encodedWindow < size) :
    l.checkEncoded size = .error (.encodedWindowTooLarge size l.encodedWindow) :=
  if_pos h

end Limits

/-- Memory that never runs short, for runs on fixed inputs. -/
def ample (_length : Nat) : Bool := true

namespace Session

variable {s t : Session} {i : Input} {d : DecodedWindow} {w : Window} {source : Array UInt8}

/-! ### Reading the header -/

lemma readHeader_of_isSome (h : s.header.isSome) (i : Input) :
    s.readHeader i = (.error (.invalid .headerAlreadyRead), s) := by
  rw [readHeader, readHeaderWith, if_pos h]

lemma readHeader_of_error {halt : Halt} (h : ¬ s.header.isSome)
    (hparse : FileHeader.parse i = .error halt) : s.readHeader i = (.error halt, s) := by
  rw [readHeader, readHeaderWith, if_neg h, hparse]

def install (s : Session) (header : FileHeader) (table : CodeTable) : Session :=
  { s with header := some header, table, cache := .empty table.nearSize table.sameSize }

lemma readHeader_of_ok {header : FileHeader} (h : ¬ s.header.isSome)
    (hparse : FileHeader.parse i = .ok header) :
    s.readHeader i = match loadTable s.limits.canAllocate header with
      | .error fault => (.error (.invalid fault), s)
      | .ok table => (.ok header, s.install header table) := by
  rcases hload : loadTable s.limits.canAllocate header with fault | table
  · simp only [readHeader, readHeaderWith, if_neg h, hparse, hload]
  · simp only [readHeader, readHeaderWith, if_neg h, hparse, hload, install]

lemma readHeader_start (dictionary : Array UInt8) (limits : Limits) {header : FileHeader}
    {table : CodeTable} (hparse : FileHeader.parse i = .ok header)
    (hload : loadTable limits.canAllocate header = .ok table) :
    (start dictionary limits).readHeader i
      = (.ok header, (start dictionary limits).install header table) := by
  have hplatform : (start dictionary limits).limits.canAllocate = limits.canAllocate := rfl
  rw [readHeader_of_ok (s := .start dictionary limits) Bool.false_ne_true hparse, hplatform, hload]

/-- A header that cannot be read changes nothing. -/
lemma session_of_readHeader_error {halt : Halt} (h : s.readHeader i = (.error halt, t)) :
    t = s := by
  by_cases hsome : s.header.isSome
  case pos =>
    rw [readHeader_of_isSome hsome] at h
    cases h
    rfl
  case neg =>
    rcases hparse : FileHeader.parse i with halt | header
    · rw [readHeader_of_error hsome hparse] at h
      cases h
      rfl
    · rw [readHeader_of_ok hsome hparse] at h
      rcases hload : loadTable s.limits.canAllocate header with fault | table
      · rw [hload] at h
        cases h
        rfl
      · rw [hload] at h
        cases h

/-- A header that has been read was parsed, and is kept. -/
lemma exists_of_readHeader_ok {header : FileHeader} (h : s.readHeader i = (.ok header, t)) :
    ¬ s.header.isSome ∧ FileHeader.parse i = .ok header ∧
      ∃ table, loadTable s.limits.canAllocate header = .ok table ∧
        t = s.install header table := by
  by_cases hsome : s.header.isSome
  case pos =>
    rw [readHeader_of_isSome hsome] at h
    cases h
  case neg =>
    rcases hparse : FileHeader.parse i with halt | header
    · rw [readHeader_of_error hsome hparse] at h
      cases h
    · rw [readHeader_of_ok hsome hparse] at h
      rcases hload : loadTable s.limits.canAllocate header with fault | table <;>
        rw [hload] at h <;> cases h
      exact ⟨hsome, rfl, table, hload, rfl⟩

/-- A change to a session that leaves alone its platform, and what a header installs, is the same
before and after the header is read. -/
lemma readHeader_map {f : Session → Session} (hheader : ∀ s, (f s).header = s.header)
    (hinstall : ∀ s header table, (f s).install header table = f (s.install header table))
    (hplatform : (f s).limits.canAllocate = s.limits.canAllocate) (i : Input) :
    (f s).readHeader i = ((s.readHeader i).1, f (s.readHeader i).2) := by
  by_cases hsome : s.header.isSome
  case pos =>
    rw [readHeader_of_isSome hsome, readHeader_of_isSome (by rwa [hheader])]
  case neg =>
    have hsome' : ¬ (f s).header.isSome := by rwa [hheader]
    rcases hparse : FileHeader.parse i with halt | header
    · rw [readHeader_of_error hsome hparse, readHeader_of_error hsome' hparse]
    · rw [readHeader_of_ok hsome hparse, readHeader_of_ok hsome' hparse, hplatform]
      rcases loadTable s.limits.canAllocate header with fault | table
      · rfl
      · exact Prod.ext rfl (hinstall s header table)

/-- The input counts only for the header that is parsed in it. -/
lemma readHeader_congr {j : Input} (h : FileHeader.parse i = FileHeader.parse j) :
    s.readHeader i = s.readHeader j := by
  unfold readHeader readHeaderWith
  rw [h]

/-- Of all headers, a loader is asked about that of the delta only. -/
lemma decodeWith_congr {load load' : TableLoader} {delta : Bytes}
    (h : ∀ header, FileHeader.parse (.ofBytes 0 delta) = .ok header →
      load header = load' header) : s.decodeWith load delta = s.decodeWith load' delta := by
  have hread : s.readHeaderWith load (.ofBytes 0 delta)
      = s.readHeaderWith load' (.ofBytes 0 delta) := by
    unfold readHeaderWith
    rcases hparse : FileHeader.parse (.ofBytes 0 delta) with halt | header
    · rfl
    · simp only [h header hparse]
  simp only [decodeWith, hread]

/-! ### Opening a window -/

lemma openWindow_eq_ok_iff :
    s.openWindow i = .ok (w, source) ↔ Window.parse i = .ok w ∧ s.sourceOf w = .ok source := by
  unfold openWindow
  rcases Window.parse i with (missing | fault) | w'
  · dsimp only
    split <;> simp
  · simp
  · dsimp only
    rcases hs : s.sourceOf w' with fault | source'
    · simp only [reduceCtorEq, Except.ok.injEq, false_iff, not_and]
      rintro rfl
      simp [hs]
    · simp only [Except.ok.injEq, Prod.mk.injEq]
      constructor
      · rintro ⟨rfl, rfl⟩
        exact ⟨rfl, hs⟩
      · rintro ⟨rfl, h⟩
        rw [hs] at h
        cases h
        exact ⟨rfl, rfl⟩

/-- A window that has been opened is decided by its own bytes. -/
lemma openWindow_local (h : s.openWindow i = .ok (w, source)) :
    ∃ used rest, i.rest = used ++ rest ∧ used.length = w.size ∧
      ∀ tail, s.openWindow { i with rest := used ++ tail } = .ok (w, source) := by
  obtain ⟨hw, hs⟩ := openWindow_eq_ok_iff.1 h
  obtain ⟨used, rest, hrest, hsize, htail⟩ := Window.parse_local hw
  exact ⟨used, rest, hrest, hsize, fun tail => openWindow_eq_ok_iff.2 ⟨htail tail, hs⟩⟩

lemma openWindow_extend (h : s.openWindow i = .ok (w, source)) (more : Bytes) :
    s.openWindow (i.extend more) = .ok (w, source) := by
  obtain ⟨used, rest, hrest, -, htail⟩ := openWindow_local h
  have := htail (rest ++ more)
  rwa [← List.append_assoc, ← hrest] at this

lemma openWindow_of_incomplete_of_le {missing : Nat}
    (h : Window.parse i = .error (.incomplete missing))
    (hle : i.available + missing ≤ s.limits.encodedWindow) :
    s.openWindow i = .error (.incomplete missing) := by
  simp only [openWindow, h, Limits.checkEncoded_of_le hle]

lemma openWindow_of_incomplete_of_lt {missing : Nat}
    (h : Window.parse i = .error (.incomplete missing))
    (hlt : s.limits.encodedWindow < i.available + missing) :
    s.openWindow i = .error (.invalid
      (.encodedWindowTooLarge (i.available + missing) s.limits.encodedWindow)) := by
  simp only [openWindow, h, Limits.checkEncoded_of_lt hlt]

lemma openWindow_of_lt_size (h : Window.parse i = .ok w)
    (hlt : s.limits.encodedWindow < (w.size : Int)) :
    s.openWindow i = .error (.invalid
      (.encodedWindowTooLarge w.size s.limits.encodedWindow)) := by
  have hs : s.sourceOf w = .error (.encodedWindowTooLarge w.size s.limits.encodedWindow) := by
    rw [sourceOf, Limits.checkEncoded_of_lt hlt]
    rfl
  simp only [openWindow, h, hs]

lemma openWindow_of_invalid {fault : Fault} (h : Window.parse i = .error (.invalid fault)) :
    s.openWindow i = .error (.invalid fault) := by
  simp only [openWindow, h]

/-- A window that asks for bytes has room for them under the limit. -/
lemma openWindow_incomplete {missing : Nat} (h : s.openWindow i = .error (.incomplete missing)) :
    Window.parse i = .error (.incomplete missing) ∧
      i.available + missing ≤ s.limits.encodedWindow := by
  rcases hp : Window.parse i with (found | fault) | w
  · rcases Int.lt_or_le s.limits.encodedWindow (i.available + found) with hlt | hle
    · rw [openWindow_of_incomplete_of_lt hp hlt] at h
      cases h
    · rw [openWindow_of_incomplete_of_le hp hle] at h
      cases h
      exact ⟨rfl, hle⟩
  · rw [openWindow_of_invalid hp] at h
    cases h
  · simp only [openWindow, hp] at h
    split at h <;> cases h

/-- A fault stays when more bytes come, except that a window which is refused for its size before
all of it is there may turn out to be wrong in another way. -/
lemma openWindow_extend_of_fault {fault : Fault} (h : s.openWindow i = .error (.invalid fault))
    (more : Bytes) :
    s.openWindow (i.extend more) = .error (.invalid fault) ∨
      (∃ size, fault = .encodedWindowTooLarge size s.limits.encodedWindow) ∧
        ∃ found, s.openWindow (i.extend more) = .error (.invalid found) := by
  rcases hp : Window.parse i with (missing | found) | w
  · -- with the bytes that it asks for, the window is too large already
    rcases Int.lt_or_le s.limits.encodedWindow (i.available + missing) with hlt | hle
    · rw [openWindow_of_incomplete_of_lt hp hlt] at h
      cases h
      refine .inr ⟨⟨_, rfl⟩, ?_⟩
      have hm := (Window.parse_patient hp).2 more
      have havailable : (i.extend more).available = i.available + more.length := by
        simp only [Input.available, Input.rest_extend, Input.gap_extend, List.length_append]
        omega
      rcases hq : Window.parse (i.extend more) with (still | found) | w
      · rw [hq] at hm
        dsimp only at hm
        exact ⟨_, openWindow_of_incomplete_of_lt hq (by omega)⟩
      · exact ⟨_, openWindow_of_invalid hq⟩
      · rw [hq] at hm
        dsimp only at hm
        simp only [Input.available] at hlt
        exact ⟨_, openWindow_of_lt_size hq (by omega)⟩
    · rw [openWindow_of_incomplete_of_le hp hle] at h
      cases h
  · rw [openWindow_of_invalid hp] at h
    cases h
    exact .inl (openWindow_of_invalid (Window.parse_final hp more))
  · left
    obtain ⟨used, rest, hrest, -, htail⟩ := Window.parse_local hp
    have hp' : Window.parse (i.extend more) = .ok w := by
      have := htail (rest ++ more)
      rwa [← List.append_assoc, ← hrest] at this
    unfold openWindow at h ⊢
    rw [hp] at h
    rw [hp']
    exact h

/-! ### Decoding a window -/

/-- The input counts only for the window that is opened in it. -/
lemma decodeWindow_congr {j : Input} (h : s.openWindow i = s.openWindow j) :
    s.decodeWindow i = s.decodeWindow j := by
  unfold decodeWindow
  rw [h]

lemma decodeWindow_of_not_isSome (h : ¬ s.header.isSome) (i : Input) :
    s.decodeWindow i = (.error (.invalid .headerNotRead), s) := by
  rw [decodeWindow, if_pos (by simpa using h)]

lemma decodeWindow_of_error {halt : Halt} (hheader : s.header.isSome)
    (h : s.openWindow i = .error halt) : s.decodeWindow i = (.error halt, s) := by
  rw [decodeWindow, if_neg (by simp [Option.isSome_iff_ne_none.1 hheader]), h]

lemma decodeWindow_of_ok (hheader : s.header.isSome) (h : s.openWindow i = .ok (w, source)) :
    s.decodeWindow i = match Replay.run (s.taskOf w source) (s.progressOf w) with
      | (.ok target, progress) =>
        (.ok ⟨target, w.size⟩, { s with cache := progress.cache, output := s.output ++ target })
      | (.error fault, progress) =>
        (.error (.invalid fault), { s with cache := progress.cache }) := by
  have hnone : ¬ s.header.isNone := by simp [Option.isSome_iff_ne_none.1 hheader]
  rcases hrun : Replay.run (s.taskOf w source) (s.progressOf w) with ⟨fault | target, progress⟩
  · simp only [decodeWindow, if_neg hnone, h, hrun]
  · simp only [decodeWindow, if_neg hnone, h, hrun]

/-- The sessions differ at most in what their address caches hold. -/
def Alike (s t : Session) : Prop :=
  ∃ cache, t = { s with cache } ∧ cache.nearSize = s.cache.nearSize ∧
    cache.sameSize = s.cache.sameSize

lemma sizes_of_run {progress : Progress} {result : Except Fault (Array UInt8)}
    (h : Replay.run (s.taskOf w source) (s.progressOf w) = (result, progress)) :
    progress.cache.nearSize = s.cache.nearSize ∧ progress.cache.sameSize = s.cache.sameSize := by
  have hsizes := Replay.sameSizes_run (s.taskOf w source) (s.progressOf w)
  rw [h] at hsizes
  exact hsizes

/-- A window that has been decoded was opened and replayed. -/
lemma replay_of_decodeWindow (h : s.decodeWindow i = (.ok d, t)) :
    s.header.isSome ∧ ∃ w source progress, s.openWindow i = .ok (w, source) ∧
      Replay.run (s.taskOf w source) (s.progressOf w) = (.ok d.output, progress) ∧
      d.size = w.size ∧ t = { s with cache := progress.cache, output := s.output ++ d.output } := by
  by_cases hsome : s.header.isSome
  case neg =>
    rw [decodeWindow_of_not_isSome hsome] at h
    cases h
  case pos =>
    rcases ho : s.openWindow i with halt | ⟨w, source⟩
    · rw [decodeWindow_of_error hsome ho] at h
      cases h
    · rw [decodeWindow_of_ok hsome ho] at h
      rcases hr : Replay.run (s.taskOf w source) (s.progressOf w) with ⟨fault | target, progress⟩
      · rw [hr] at h
        cases h
      · rw [hr] at h
        cases h
        exact ⟨hsome, w, source, progress, rfl, hr, rfl, rfl⟩

/-- A window that has been decoded was opened, and has added its target to the output. -/
lemma exists_of_decodeWindow_ok (h : s.decodeWindow i = (.ok d, t)) :
    s.header.isSome ∧ (∃ w source, s.openWindow i = .ok (w, source) ∧ w.size = d.size) ∧
      Alike { s with output := s.output ++ d.output } t := by
  obtain ⟨hsome, w, source, progress, hopen, hrun, hsize, rfl⟩ := replay_of_decodeWindow h
  exact ⟨hsome, ⟨w, source, hopen, hsize.symm⟩, progress.cache, rfl, sizes_of_run hrun⟩

/-- A window that fails changes at most what the address cache holds. -/
lemma alike_of_decodeWindow_error {halt : Halt} (h : s.decodeWindow i = (.error halt, t)) :
    Alike s t := by
  by_cases hsome : s.header.isSome
  case neg =>
    rw [decodeWindow_of_not_isSome hsome] at h
    cases h
    exact ⟨s.cache, rfl, rfl, rfl⟩
  case pos =>
    rcases ho : s.openWindow i with halt | ⟨w, source⟩
    · rw [decodeWindow_of_error hsome ho] at h
      cases h
      exact ⟨s.cache, rfl, rfl, rfl⟩
    · rw [decodeWindow_of_ok hsome ho] at h
      rcases hr : Replay.run (s.taskOf w source) (s.progressOf w) with ⟨fault | target, progress⟩
      · rw [hr] at h
        cases h
        exact ⟨progress.cache, rfl, sizes_of_run hr⟩
      · rw [hr] at h
        cases h

/-- A window that is not all there changes nothing. -/
lemma decodeWindow_incomplete {missing : Nat}
    (h : s.decodeWindow i = (.error (.incomplete missing), t)) :
    s.header.isSome ∧ s.openWindow i = .error (.incomplete missing) ∧ t = s := by
  by_cases hsome : s.header.isSome
  case neg =>
    rw [decodeWindow_of_not_isSome hsome] at h
    cases h
  case pos =>
    rcases ho : s.openWindow i with halt | ⟨w, source⟩
    · rw [decodeWindow_of_error hsome ho] at h
      cases h
      exact ⟨hsome, rfl, rfl⟩
    · rw [decodeWindow_of_ok hsome ho] at h
      rcases hr : Replay.run (s.taskOf w source) (s.progressOf w) with ⟨fault | target, progress⟩
      · rw [hr] at h
        cases h
      · rw [hr] at h
        cases h

/-! ### Further bytes -/

/-- A window that has been decoded is decided by its own bytes. -/
lemma decodeWindow_local (h : s.decodeWindow i = (.ok d, t)) :
    ∃ used rest, i.rest = used ++ rest ∧ used.length = d.size ∧
      ∀ tail, s.decodeWindow { i with rest := used ++ tail } = (.ok d, t) := by
  obtain ⟨-, ⟨w, source, ho, hsize⟩, -⟩ := exists_of_decodeWindow_ok h
  obtain ⟨used, rest, hrest, hlen, htail⟩ := openWindow_local ho
  exact ⟨used, rest, hrest, hlen.trans hsize,
    fun tail => (decodeWindow_congr ((htail tail).trans ho.symm)).trans h⟩

lemma size_le_of_decodeWindow (h : s.decodeWindow i = (.ok d, t)) : d.size ≤ i.rest.length := by
  obtain ⟨used, rest, hrest, hlen, -⟩ := decodeWindow_local h
  rw [hrest, List.length_append]
  omega

lemma decodeWindow_extend (h : s.decodeWindow i = (.ok d, t)) (more : Bytes) :
    s.decodeWindow (i.extend more) = (.ok d, t) := by
  obtain ⟨-, ⟨w, source, ho, -⟩, -⟩ := exists_of_decodeWindow_ok h
  exact (decodeWindow_congr ((openWindow_extend ho more).trans ho.symm)).trans h

/-- A window that asks for bytes ends after those that are there. -/
lemma length_lt_of_decodeWindow_extend {u : Session} {missing : Nat} {more : Bytes}
    (h : s.decodeWindow i = (.error (.incomplete missing), u))
    (hmore : s.decodeWindow (i.extend more) = (.ok d, t)) : i.rest.length < d.size := by
  obtain ⟨-, ho, -⟩ := decodeWindow_incomplete h
  obtain ⟨-, ⟨w, source, ho', hsize⟩, -⟩ := exists_of_decodeWindow_ok hmore
  obtain ⟨hpos, hpatient⟩ := Window.parse_patient (openWindow_incomplete ho).1
  have hle := hpatient more
  rw [(openWindow_eq_ok_iff.1 ho').1] at hle
  dsimp only at hle
  omega

/-- A fault stays a fault when more bytes come, and the same one, unless the window was refused
for its size before all of it was there. -/
lemma decodeWindow_extend_of_fault {fault : Fault}
    (h : s.decodeWindow i = (.error (.invalid fault), t)) (more : Bytes) :
    ∃ found u, s.decodeWindow (i.extend more) = (.error (.invalid found), u) ∧
      (found = fault ∨ ∃ size, fault = .encodedWindowTooLarge size s.limits.encodedWindow) := by
  by_cases hsome : s.header.isSome
  case neg =>
    rw [decodeWindow_of_not_isSome hsome] at h
    cases h
    exact ⟨_, _, decodeWindow_of_not_isSome hsome _, .inl rfl⟩
  case pos =>
    rcases ho : s.openWindow i with (missing | refused) | ⟨w, source⟩
    · rw [decodeWindow_of_error hsome ho] at h
      cases h
    · rw [decodeWindow_of_error hsome ho] at h
      cases h
      rcases openWindow_extend_of_fault ho more with he | ⟨hsize, found, he⟩
      · exact ⟨_, _, decodeWindow_of_error hsome he, .inl rfl⟩
      · exact ⟨_, _, decodeWindow_of_error hsome he, .inr hsize⟩
    · exact ⟨fault, t, (decodeWindow_congr ((openWindow_extend ho more).trans ho.symm)).trans h,
        .inl rfl⟩

end Session

end Vcdiff
