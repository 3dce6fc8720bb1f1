import Vcdiff.Proofs.Calls
import Vcdiff.Proofs.Safety
import Vcdiff.Proofs.Slots

/-!
The code table and the address cache of a session fit together, whatever calls the session has had:
the table uses no mode that the cache does not have. So no COPY is in an unknown mode, and no slot
of the cache is looked up that is not there.
-/

namespace Vcdiff

def Answer.fault? : Answer → Option Fault
  | .header (.error (.invalid fault)) => some fault
  | .window (.error (.invalid fault)) => some fault
  | .output (.error fault) => some fault
  | _ => none

namespace Session

variable {s t : Session} {i : Input} {fault : Fault}

/-- Decodes the window at the front of the input, unless its replay breaks off. -/
def decodeWindowChecked (s : Session) (input : Input) :
    Option (Except Halt DecodedWindow × Session) :=
  if s.header.isNone then some (.error (.invalid .headerNotRead), s)
  else
    match s.openWindow input with
    | .error halt => some (.error halt, s)
    | .ok (window, source) =>
      match Replay.runChecked (s.taskOf window source) (window.instructions.length + 1)
          (s.progressOf window) with
      | none => none
      | some (.ok target, progress) =>
        some (.ok ⟨target, window.size⟩,
          { s with cache := progress.cache, output := s.output ++ target })
      | some (.error fault, progress) =>
        some (.error (.invalid fault), { s with cache := progress.cache })

/-- The cache has the sizes of the table, and the table uses only modes that there are for them. -/
structure Fitted (s : Session) : Prop where
  nearSize : s.cache.nearSize = s.table.nearSize
  sameSize : s.cache.sameSize = s.table.sameSize
  modes : s.table.UsesModes (2 + s.table.nearSize + s.table.sameSize)

lemma fitted_start (dictionary : Array UInt8) (limits : Limits) :
    (start dictionary limits).Fitted :=
  ⟨rfl, rfl, CodeTable.default_usesModes⟩

/-- The cache is made for the table that is installed, and no call changes its sizes. -/
lemma lasting_fitted : Lasting Fitted where
  alike := by
    rintro s t ⟨cache, rfl, hnear, hsame⟩ h
    exact ⟨hnear.trans h.nearSize, hsame.trans h.sameSize, h.modes⟩
  grow _ h := ⟨h.nearSize, h.sameSize, h.modes⟩
  install _ hload _ := ⟨rfl, rfl, usesModes_of_loadTable hload⟩

/-! ### One window -/

lemma Fitted.run (h : s.Fitted) (w : Window) (source : Array UInt8) :
    Replay.runChecked (s.taskOf w source) (w.instructions.length + 1) (s.progressOf w)
        = some (Replay.run (s.taskOf w source) (s.progressOf w)) ∧
      Replay.Fitting s.cache.nearSize s.cache.sameSize
        (Replay.run (s.taskOf w source) (s.progressOf w)) := by
  have hmodes : s.table.UsesModes (2 + s.cache.nearSize + s.cache.sameSize) := by
    rw [h.nearSize, h.sameSize]
    exact h.modes
  exact Replay.runChecked_eq hmodes (AddressCache.fits_clear s.cache) (Nat.lt_succ_self _)

lemma Fitted.decodeWindowChecked_eq (h : s.Fitted) (i : Input) :
    s.decodeWindowChecked i = some (s.decodeWindow i) := by
  unfold decodeWindowChecked decodeWindow
  split
  · rfl
  · rcases s.openWindow i with halt | ⟨w, source⟩
    · rfl
    · dsimp only
      rw [(h.run w source).1]
      rcases Replay.run (s.taskOf w source) (s.progressOf w) with ⟨fault | target, progress⟩ <;> rfl

lemma Fitted.not_unknownMode (h : s.Fitted)
    (hd : s.decodeWindow i = (.error (.invalid fault), t)) : ¬ fault.UnknownMode := by
  by_cases hheader : s.header.isSome
  case neg =>
    rw [decodeWindow_of_not_isSome hheader] at hd
    cases hd
    exact Fault.not_unknownMode (by simp [Fault.kind])
  case pos =>
    rcases hopen : s.openWindow i with halt | ⟨w, source⟩
    · rw [decodeWindow_of_error hheader hopen] at hd
      cases hd
      rcases ofFormat_of_openWindow hopen with hkind | hformat
      · exact Fault.not_unknownMode (by simp [hkind])
      · exact Fault.not_unknownMode hformat.2
    · have hfitting := (h.run w source).2
      rw [decodeWindow_of_ok hheader hopen] at hd
      rcases hrun : Replay.run (s.taskOf w source) (s.progressOf w) with ⟨found | target, progress⟩
      · rw [hrun] at hd hfitting
        cases hd
        exact hfitting.2
      · rw [hrun] at hd
        cases hd

/-! ### Any call -/

lemma finds_notUnknownMode : Finds (fun fault => ¬ fault.UnknownMode) Fitted where
  format h := Fault.not_unknownMode h.2
  window := Fitted.not_unknownMode
  next {s t i d} hs h := by
    have := lasting_fitted.decodeWindow hs i
    rwa [h] at this
  install _ _ _ htable := ⟨rfl, rfl, htable⟩

/-- Nor does the nested session that decodes a table find one. -/
lemma not_unknownMode_of_readHeader (h : s.readHeader i = (.error (.invalid fault), t)) :
    ¬ fault.UnknownMode := by
  by_cases hheader : s.header.isSome
  case pos =>
    rw [readHeader_of_isSome hheader] at h
    cases h
    exact Fault.not_unknownMode (by simp [Fault.kind])
  case neg =>
    rcases hparse : FileHeader.parse i with halt | header
    · rw [readHeader_of_error hheader hparse] at h
      cases h
      exact Fault.not_unknownMode (FileHeader.ofFormat_of_parse hparse).2
    · rw [readHeader_of_ok hheader hparse] at h
      rcases hload : loadTable s.limits.canAllocate header with found | table
      · rw [hload] at h
        cases h
        exact finds_notUnknownMode.loadTable hload
      · rw [hload] at h
        cases h

lemma Fitted.call (h : s.Fitted) {c : Call} (hfault : (s.call c).1.fault? = some fault) :
    ¬ fault.UnknownMode := by
  cases c with
  | readHeader bytes offset =>
    rcases hread : s.readHeader (.ofOffset bytes offset) with ⟨(missing | found) | header, t⟩
    · simp only [Session.call, hread, Answer.fault?] at hfault
      cases hfault
    · simp only [Session.call, hread, Answer.fault?] at hfault
      cases hfault
      exact not_unknownMode_of_readHeader hread
    · simp only [Session.call, hread, Answer.fault?] at hfault
      cases hfault
  | decodeWindow bytes offset =>
    rcases hwindow : s.decodeWindow (.ofOffset bytes offset) with ⟨(missing | found) | d, t⟩
    · simp only [Session.call, hwindow, Answer.fault?] at hfault
      cases hfault
    · simp only [Session.call, hwindow, Answer.fault?] at hfault
      cases hfault
      exact h.not_unknownMode hwindow
    · simp only [Session.call, hwindow, Answer.fault?] at hfault
      cases hfault
  | decode delta =>
    rcases hdecode : s.decode delta with ⟨found | output, t⟩
    · simp only [Session.call, hdecode, Answer.fault?] at hfault
      cases hfault
      by_cases hheader : s.header.isSome
      · rw [decode_of_error (readHeader_of_isSome hheader _), headerFault] at hdecode
        cases hdecode
        exact Fault.not_unknownMode (by simp [Fault.kind])
      · exact finds_notUnknownMode.decode hheader (congrArg Prod.fst hdecode)
    · simp only [Session.call, hdecode, Answer.fault?] at hfault
      cases hfault

/-- **Modes.** Whatever calls a session has had, the address cache has the sizes of the code table,
and each COPY of the table is in a mode that there is for them. So no call finds an unknown mode,
and no window makes the cache look up a slot that is not there. -/
theorem modes_fit (dictionary : Array UInt8) (limits : Limits) (calls : List Call) :
    let s := (start dictionary limits).after calls
    s.cache.nearSize = s.table.nearSize ∧ s.cache.sameSize = s.table.sameSize ∧
      s.table.UsesModes (2 + s.table.nearSize + s.table.sameSize) ∧
      (∀ c mode nearSize sameSize,
        (s.call c).1.fault? ≠ some (.unknownMode mode nearSize sameSize)) ∧
      ∀ i, s.decodeWindowChecked i = some (s.decodeWindow i) := by
  have hs := lasting_fitted.after (fitted_start dictionary limits) calls
  exact ⟨hs.nearSize, hs.sameSize, hs.modes,
    fun c mode nearSize sameSize hfault => hs.call hfault ⟨mode, nearSize, sameSize, rfl⟩,
    hs.decodeWindowChecked_eq⟩

end Session

end Vcdiff
