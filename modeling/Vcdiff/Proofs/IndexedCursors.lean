import Vcdiff.Cursor
import Vcdiff.Proofs.Indexing

/-!
Cursors by index. A cursor over a region of a buffer answers each read as one would that fetches the
bytes from the buffer by their index, after the same checks against the end of the region. So it
never fetches a byte beyond that, or beyond the buffer.
-/

namespace Vcdiff.Cursor

inductive Request where
  | byte
  | bytes (n : Nat)
  | skip (n : Nat)
  | uint32
  | varint (limit : Nat)
  deriving DecidableEq

inductive Answer where
  | bytes (bytes : Bytes)
  | number (n : Nat)
  deriving DecidableEq

namespace Request

def read : Request → Read Answer
  | byte => do return .bytes [← readByte]
  | bytes n => do return .bytes (← readBytes n)
  | skip n => do
    Cursor.skip n
    return .bytes []
  | uint32 => do return .number (← readUInt32)
  | varint limit => do return .number (← readVarint limit)

section ReadAt

variable (buffer : Bytes) (label : String) (stop : Nat)

def ensure (n : Nat) : Reader Unit := fun i =>
  if stop - i < n then .error (.halt (.invalid (.sectionExhausted label n i (stop - i))))
  else .ok ((), i)

def readAt : Request → Reader Answer
  | byte => do
    ensure label stop 1
    return .bytes [← Reader.next buffer]
  | bytes n => do
    ensure label stop n
    return .bytes (← Reader.nextAll buffer n)
  | skip n => do
    ensure label stop n
    fun i => .ok (.bytes [], i + n)
  | uint32 => do
    ensure label stop 4
    return .number (← Reader.nextAll buffer 4).toNat
  | varint limit => fun i =>
    match Reader.scan buffer limit i stop 0 i with
    | .ok (some (n, after)) => .ok (.number n, after)
    | .ok none => .error (.halt (.invalid (.varintCutOff label i)))
    | .error stopped => .error stopped

end ReadAt

end Request

/-- What the cursor answers to requests one after the other. A request that fails leaves it where
it was. -/
def answers : List Request → Cursor → List (Except Fault Answer)
  | [], _ => []
  | request :: requests, c =>
    match request.read c with
    | .ok (answer, d) => .ok answer :: answers requests d
    | .error fault => .error fault :: answers requests c

def answersAt (buffer : Bytes) (label : String) (stop : Nat) :
    List Request → Nat → List (Except Stop Answer)
  | [], _ => []
  | request :: requests, i =>
    match request.readAt buffer label stop i with
    | .ok (answer, j) => .ok answer :: answersAt buffer label stop requests j
    | .error stopped => .error stopped :: answersAt buffer label stop requests i

/-! ### One request -/

variable {buffer : Bytes} {stop n : Nat} {c d : Cursor}

/-- What is left for the cursor are the bytes of the buffer from its position up to `stop`. -/
structure Spans (buffer : Bytes) (stop : Nat) (c : Cursor) : Prop where
  rest_eq : c.rest = buffer.between c.position stop
  position_le : c.position ≤ stop

/-- What a request comes to, said of indices. -/
def Mirrors (buffer : Bytes) (stop : Nat) (c : Cursor) :
    Except Fault (Answer × Cursor) → Except Stop (Answer × Nat) → Prop
  | .ok (answer, d), result =>
    result = .ok (answer, d.position) ∧ d.Spans buffer stop ∧ d.label = c.label
  | .error fault, result => result = .error (.halt (.invalid fault))

section Spans

variable (hstop : stop ≤ buffer.length) (hc : c.Spans buffer stop)
include hstop hc

lemma Spans.length_rest : c.rest.length = stop - c.position := by
  rw [hc.rest_eq, Bytes.length_between]
  omega

lemma ensure_of_lt (h : c.rest.length < n) :
    Request.ensure c.label stop n c.position = .error (.halt (.invalid (c.exhausted n))) := by
  have hlength := hc.length_rest hstop
  rw [Request.ensure, if_pos (by omega), exhausted, remaining, hlength]

lemma ensure_of_le (h : n ≤ c.rest.length) :
    Request.ensure c.label stop n c.position = .ok ((), c.position) := by
  have hlength := hc.length_rest hstop
  exact if_neg (by omega)

/-- After `n` bytes the cursor still spans the bytes up to `stop`. -/
lemma Spans.advance (h : n ≤ c.rest.length) :
    Spans buffer stop { c with position := c.position + n, rest := c.rest.drop n } := by
  have hlength := hc.length_rest hstop
  have hle := hc.position_le
  refine ⟨?_, by dsimp only; omega⟩
  rw [hc.rest_eq, Bytes.drop_between]

/-- Bytes that the cursor gives are those of the buffer from its position on. -/
lemma nextAll_of_spans (h : n ≤ c.rest.length) :
    Reader.nextAll buffer n c.position = .ok (c.rest.take n, c.position + n) := by
  have hlength := hc.length_rest hstop
  have hle := hc.position_le
  rw [Reader.nextAll_of_le (by omega), hc.rest_eq, Bytes.take_between (by omega)]

lemma mirrors_byte : Mirrors buffer stop c (Request.byte.read c)
    (Request.byte.readAt buffer c.label stop c.position) := by
  have hlength := hc.length_rest hstop
  have hle := hc.position_le
  rcases Nat.eq_zero_or_pos c.rest.length with hzero | hpos
  · have hread : readByte c = .error (c.exhausted 1) := by
      rw [readByte, List.length_eq_zero_iff.1 hzero]
    have hanswer : Request.byte.read c = .error (c.exhausted 1) := run_bind_of_error hread
    rw [hanswer]
    exact run_bind_of_error (ensure_of_lt hstop hc (by omega))
  · have hlt : c.position < stop := by omega
    have hrest := hc.rest_eq
    rw [Bytes.between_of_lt hlt hstop] at hrest
    have hread : readByte c = .ok (buffer[c.position],
        { c with position := c.position + 1, rest := buffer.between (c.position + 1) stop }) := by
      rw [readByte, hrest]
    have hanswer : Request.byte.read c = .ok (.bytes [buffer[c.position]],
        { c with position := c.position + 1, rest := buffer.between (c.position + 1) stop }) :=
      run_bind_of_ok hread
    rw [hanswer]
    refine ⟨?_, ⟨rfl, hlt⟩, rfl⟩
    refine (run_bind_of_ok (ensure_of_le hstop hc hpos)).trans ?_
    exact run_bind_of_ok (Reader.next_of_lt (Nat.lt_of_lt_of_le hlt hstop))

/-- Of the requests for a given number of bytes, whatever is made of those. -/
lemma mirrors_of_readBytes {request : Request} {f : Bytes → Answer} {r : Reader Answer}
    (hread : request.read = do return f (← readBytes n))
    (hreadAt : request.readAt buffer c.label stop = do
      Request.ensure c.label stop n
      r)
    (hr : n ≤ c.rest.length → r c.position = .ok (f (c.rest.take n), c.position + n)) :
    Mirrors buffer stop c (request.read c) (request.readAt buffer c.label stop c.position) := by
  rw [hread, hreadAt]
  rcases Nat.lt_or_ge c.rest.length n with hlt | hle
  · rw [run_bind_of_error (readBytes_of_lt hlt)]
    exact run_bind_of_error (ensure_of_lt hstop hc hlt)
  · rw [run_bind_of_ok (readBytes_of_le hle)]
    have hindex := run_bind_of_ok (f := fun _ => r) (ensure_of_le hstop hc hle)
    exact ⟨hindex.trans (hr hle), hc.advance hstop hle, rfl⟩

lemma mirrors_varint (limit : Nat) : Mirrors buffer stop c ((Request.varint limit).read c)
    ((Request.varint limit).readAt buffer c.label stop c.position) := by
  have hscan := @Reader.scan_eq buffer c.position stop limit hstop
  rw [← hc.rest_eq] at hscan
  rcases hs : Varint.scan limit c.rest with ⟨n, k, rest⟩ | _ | _
  · rw [hs] at hscan
    obtain ⟨hnext, hle, hrest⟩ := hscan
    have hread : readVarint limit c
        = .ok (n, { c with position := c.position + k, rest }) := by rw [readVarint, hs]
    have hanswer : (Request.varint limit).read c
        = .ok (.number n, { c with position := c.position + k, rest }) := run_bind_of_ok hread
    rw [hanswer]
    refine ⟨?_, ⟨hrest, hle⟩, rfl⟩
    simp only [Request.readAt, hnext]
  · rw [hs] at hscan
    have hindex : Reader.scan buffer limit c.position stop 0 c.position
        = .error (.halt (.invalid (.varintTooLarge c.position limit))) := hscan
    have hread : readVarint limit c = .error (.varintTooLarge c.position limit) := by
      rw [readVarint, hs]
    have hanswer : (Request.varint limit).read c = .error (.varintTooLarge c.position limit) :=
      run_bind_of_error hread
    rw [hanswer]
    simp only [Request.readAt, hindex]
    rfl
  · rw [hs] at hscan
    have hindex : Reader.scan buffer limit c.position stop 0 c.position = .ok none := hscan
    have hread : readVarint limit c = .error (.varintCutOff c.label c.position) := by
      rw [readVarint, hs]
    have hanswer : (Request.varint limit).read c = .error (.varintCutOff c.label c.position) :=
      run_bind_of_error hread
    rw [hanswer]
    simp only [Request.readAt, hindex]
    rfl

/-- A cursor answers as the read by index does, and spans the bytes up to `stop` also after it. -/
theorem mirrors_readAt (request : Request) :
    Mirrors buffer stop c (request.read c) (request.readAt buffer c.label stop c.position) := by
  cases request with
  | byte => exact mirrors_byte hstop hc
  | bytes n =>
    exact mirrors_of_readBytes hstop hc rfl rfl fun hle =>
      run_bind_of_ok (nextAll_of_spans hstop hc hle)
  | skip n =>
    have hread : (Request.skip n).read = do
        let _ ← readBytes n
        return .bytes [] := by
      simp only [Request.read, Cursor.skip, bind_assoc, pure_bind]
    exact mirrors_of_readBytes (f := fun _ => .bytes []) hstop hc hread rfl fun _ => rfl
  | uint32 =>
    have hread : Request.uint32.read = do
        return .number (← readBytes 4).toNat := by
      simp only [Request.read, readUInt32, bind_assoc, pure_bind]
    exact mirrors_of_readBytes hstop hc hread rfl fun hle =>
      run_bind_of_ok (nextAll_of_spans hstop hc hle)
  | varint limit => exact mirrors_varint hstop hc limit

end Spans

/-! ### All requests -/

/-- **Cursor bytes.** Whatever is asked of a cursor that spans its region of the buffer, it answers
as reads by index do, so each byte that it reads is there. -/
theorem answersAt_of_spans (hstop : stop ≤ buffer.length) (hc : c.Spans buffer stop)
    (requests : List Request) :
    answersAt buffer c.label stop requests c.position
      = (answers requests c).map (·.mapError Stop.ofFault) := by
  induction requests generalizing c with
  | nil => rfl
  | cons request requests ih =>
    have hmirrors := mirrors_readAt hstop hc request
    rcases hread : request.read c with fault | ⟨answer, d⟩
    · rw [hread] at hmirrors
      have hindex : request.readAt buffer c.label stop c.position = .error (.ofFault fault) :=
        hmirrors
      rw [answersAt, answers, hread, hindex]
      dsimp only
      rw [ih hc]
      rfl
    · rw [hread] at hmirrors
      obtain ⟨hindex, hspans, hlabel⟩ := hmirrors
      rw [answersAt, answers, hread, hindex]
      dsimp only
      rw [← hlabel, ih hspans]
      rfl

/-- A cursor over a region spans it. -/
lemma spans_of_ofRegion {label : String} {start stop : Int}
    (h : ofRegion label buffer start stop = .ok c) : c.Spans buffer stop.toNat := by
  unfold ofRegion at h
  split at h
  · cases h
  · rename_i hregion
    cases h
    exact ⟨rfl, by simp only [ofSection]; omega⟩

end Vcdiff.Cursor
