import Vcdiff.Fault

/-!
Bounds on what a session takes in and puts out. A caller may set them to any number, also to one
that no window can meet. A target must also fit in memory, and that is for the platform to say.
-/

namespace Vcdiff

structure Limits where
  /-- The bytes of one encoded window, its header included. -/
  encodedWindow : Int
  /-- The bytes of one window's target. -/
  targetWindow : Int
  /-- The bytes of all targets together. -/
  output : Int
  /-- The platform has memory for so many bytes. -/
  canAllocate : Nat → Bool

namespace Limits

def defaultTargetWindow : Int := 67108864

def defaultOutput : Int := 67108864

/-- What the default allows an encoded window beside twice the size of its target. -/
def encodingOverhead : Int := 65536

/-- The limits that a caller sets, with the defaults for those that it does not. -/
def ofOptions (canAllocate : Nat → Bool) (targetWindow output encodedWindow : Option Int) :
    Limits :=
  let targetWindow := targetWindow.getD defaultTargetWindow
  { targetWindow
    output := output.getD defaultOutput
    encodedWindow := encodedWindow.getD (2 * targetWindow + encodingOverhead)
    canAllocate }

def default (canAllocate : Nat → Bool) : Limits := ofOptions canAllocate none none none

variable (l : Limits)

def checkEncoded (size : Int) : Except Fault Unit :=
  if l.encodedWindow < size then .error (.encodedWindowTooLarge size l.encodedWindow) else .ok ()

/-- A target of `length` bytes after `written` bytes of output. -/
def checkTarget (written length : Nat) : Except Fault Unit :=
  if l.targetWindow < length then .error (.targetWindowTooLarge length l.targetWindow)
  else if l.output < (written + length : Nat) then .error (.outputTooLarge l.output)
  else if 0 < length ∧ ¬ l.canAllocate length then .error (.cannotAllocate length)
  else .ok ()

end Limits

end Vcdiff
