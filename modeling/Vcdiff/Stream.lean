import Vcdiff.Session

/-!
Decoding a delta that arrives in chunks. A stream keeps the bytes that no window has used yet, and
each write gives the targets of the windows that it completes. What was given before a failure
stays given.
-/

namespace Vcdiff

structure Stream where
  session : Session
  pending : Bytes

namespace Stream

def start (dictionary : Array UInt8) (limits : Limits) : Stream := ⟨.start dictionary limits, []⟩

/-- What a write gives, and the stream after it or the fault that ended it. -/
structure Written where
  emitted : List (Array UInt8)
  result : Except Fault Stream

/-- Decodes windows as long as they are complete; an empty target is not given. -/
def drain (session : Session) (input : Input) : Written :=
  if _hne : input.rest.isEmpty then ⟨[], .ok ⟨session, []⟩⟩
  else
    match _h : session.decodeWindow input with
    | (.ok window, session) =>
      let after := drain session (input.drop window.size)
      if window.output.isEmpty then after
      else ⟨window.output :: after.emitted, after.result⟩
    | (.error (.incomplete _), session) => ⟨[], .ok ⟨session, input.rest⟩⟩
    | (.error (.invalid fault), _) => ⟨[], .error fault⟩
termination_by input.rest.length
decreasing_by
  have := Session.size_pos_of_decodeWindow _h
  have := List.length_pos_iff.2 (fun e => _hne (List.isEmpty_iff.2 e))
  rw [Input.length_rest_drop]
  omega

/-- Takes in one chunk. The header is read as soon as all of it is there. -/
def write (s : Stream) (chunk : Bytes) : Written :=
  let input := Input.ofBytes 0 (s.pending ++ chunk)
  if s.session.header.isSome then drain s.session input
  else
    match s.session.readHeader input with
    | (.error (.incomplete _), session) => ⟨[], .ok ⟨session, input.rest⟩⟩
    | (.error (.invalid fault), _) => ⟨[], .error fault⟩
    | (.ok header, session) => drain session (input.drop header.size)

/-- Ends the input, which is a fault inside a header or a window. -/
def finish (s : Stream) : Except Fault Unit :=
  if s.session.header.isNone then .error .endedInHeader
  else if s.pending.isEmpty then .ok ()
  else .error (.endedInWindow s.pending.length)

/-- Takes in chunks one after the other, as far as none of them fails: what each write gives, and
the stream after the last. -/
def writeAll (s : Stream) : List Bytes → List (List (Array UInt8)) × Except Fault Stream
  | [] => ([], .ok s)
  | chunk :: chunks =>
    let written := s.write chunk
    match written.result with
    | .error fault => ([written.emitted], .error fault)
    | .ok next =>
      let (emitted, result) := writeAll next chunks
      (written.emitted :: emitted, result)

end Stream

end Vcdiff
