import Vcdiff.Proofs.Base128
import Vcdiff.Proofs.Commands
import Vcdiff.Proofs.IndexedCursors

/-!
A cursor in place. It holds the whole buffer and moves a position in it. An operation checks how
much is left of the region, moves the position and fetches bytes by their index; a number is even
looked up in the buffer past the cursor, which is only told afterwards how many bytes to skip. What
an operation has done to the position by the time that it fails stays done.

All the same it is the cursor that holds nothing but the bytes that are left (`records_eq`). So an
operation does all that it is for or nothing, a run of operations takes the region byte by byte from
its front, and what lies outside of the region makes no difference.
-/

namespace Vcdiff.Cursor

/-! ### What a request is for -/

namespace Request

/-- The request takes just these bytes, and this is its answer. -/
inductive Takes : Request → Bytes → Answer → Prop
  | byte (b : UInt8) : Takes .byte [b] (.bytes [b])
  | bytes (taken : Bytes) : Takes (.bytes taken.length) taken (.bytes taken)
  | skip (taken : Bytes) : Takes (.skip taken.length) taken (.bytes [])
  | uint32 {taken : Bytes} (hlength : taken.length = 4) : Takes .uint32 taken (.number taken.toNat)
  | varint {limit : Nat} {leading : Bytes} {last : UInt8}
    (hleading : ∀ b ∈ leading, Varint.continues b) (hlast : ¬ Varint.continues last)
    (hle : Varint.value (leading ++ [last]) ≤ limit) :
    Takes (.varint limit) (leading ++ [last]) (.number (Varint.value (leading ++ [last])))

def need : Request → Option Nat
  | byte => some 1
  | bytes n => some n
  | skip n => some n
  | uint32 => some 4
  | varint _ => none

/-- The bytes that are left are too few for the request, or those at their front too much for its
limit. -/
inductive Fails : Request → Bytes → Fault.Kind → Prop
  | short {request : Request} {left : Bytes} {n : Nat} (hneed : request.need = some n)
    (hlt : left.length < n) : Fails request left .truncatedInput
  | cutOff {limit : Nat} {left : Bytes} (hleft : ∀ b ∈ left, Varint.continues b)
    (hle : Varint.value left ≤ limit) : Fails (.varint limit) left .truncatedInput
  | tooLarge {limit : Nat} {front : Bytes} (hfront : ∀ b ∈ front.dropLast, Varint.continues b)
    (hlarge : limit < Varint.value front) (rest : Bytes) :
    Fails (.varint limit) (front ++ rest) .integerOverflow

end Request

structure Record where
  request : Request
  result : Except Stop Answer
  before : Nat
  after : Nat
  deriving DecidableEq

def after : List Request → Cursor → Cursor
  | [], c => c
  | request :: requests, c =>
    match request.read c with
    | .ok (_, d) => after requests d
    | .error _ => after requests c

def records : List Request → Cursor → List Record
  | [], _ => []
  | request :: requests, c =>
    match request.read c with
    | .ok (answer, d) => ⟨request, .ok answer, c.position, d.position⟩ :: records requests d
    | .error fault => ⟨request, .error (.ofFault fault), c.position, c.position⟩ :: records requests c

section Records

variable {c d : Cursor} {request : Request} {answer : Answer} {fault : Fault}
  (requests : List Request)

lemma after_of_ok (h : request.read c = .ok (answer, d)) :
    c.after (request :: requests) = d.after requests := by
  rw [after, h]

lemma after_of_error (h : request.read c = .error fault) :
    c.after (request :: requests) = c.after requests := by
  rw [after, h]

lemma records_of_ok (h : request.read c = .ok (answer, d)) :
    c.records (request :: requests)
      = ⟨request, .ok answer, c.position, d.position⟩ :: d.records requests := by
  rw [records, h]

lemma records_of_error (h : request.read c = .error fault) :
    c.records (request :: requests)
      = ⟨request, .error (.ofFault fault), c.position, c.position⟩ :: c.records requests := by
  rw [records, h]

end Records

/-! ### Cursors in place -/

structure Region where
  label : String
  buffer : Bytes
  start : Nat
  stop : Nat
  start_le : start ≤ stop
  stop_le : stop ≤ buffer.length

namespace Region

/-- An operation on a position, which keeps its effects also when it fails. -/
abbrev Action (α : Type) := ExceptT Stop (StateM Nat) α

section Actions

variable {α β : Type}

def move (n : Nat) : Action Nat := fun i => (.ok i, i + n)

/-- Looks into the buffer, and leaves the position. -/
def look (f : Nat → Except Stop α) : Action α := fun i => (f i, i)

lemma bind_of_ok {x : Action α} {f : α → Action β} {i j : Nat} {a : α} (h : x i = (.ok a, j)) :
    (x >>= f) i = f a j := by
  show (match x i with | (r, j) => (ExceptT.bindCont f r) j) = _
  rw [h]
  rfl

lemma bind_of_error {x : Action α} {f : α → Action β} {i j : Nat} {stopped : Stop}
    (h : x i = (.error stopped, j)) : (x >>= f) i = (.error stopped, j) := by
  show (match x i with | (r, j) => (ExceptT.bindCont f r) j) = _
  rw [h]
  rfl

end Actions

variable (r : Region)

def bytes : Bytes := r.buffer.between r.start r.stop

def cursor : Cursor := .ofSection r.label r.start r.bytes

def ensure (n : Nat) : Action Unit := fun i =>
  if r.stop < i + n then (.error (.ofFault (.sectionExhausted r.label n i (r.stop - i))), i)
  else (.ok (), i)

def readByte : Action UInt8 := do
  r.ensure 1
  let i ← move 1
  look fun _ => Reader.fetch r.buffer i

def readBytes (n : Nat) : Action Bytes := do
  r.ensure n
  let taken ← look fun i => Reader.fetchAll r.buffer i n
  let _ ← move n
  return taken

def skip (n : Nat) : Action Unit := do
  r.ensure n
  let _ ← move n

/-- The number at an index and the bytes that it takes, or a fault where there is none. -/
def varintAt (limit i : Nat) : Except Stop (Nat × Nat) :=
  match Reader.scan r.buffer limit i r.stop 0 i with
  | .ok (some (n, after)) => .ok (n, after - i)
  | .ok none => .error (.ofFault (.varintCutOff r.label i))
  | .error stopped => .error stopped

def readVarint (limit : Nat) : Action Nat := do
  let (n, size) ← look (r.varintAt limit)
  r.skip size
  return n

def perform : Request → Action Answer
  | .byte => do return .bytes [← r.readByte]
  | .bytes n => do return .bytes (← r.readBytes n)
  | .skip n => do
    r.skip n
    return .bytes []
  | .uint32 => do return .number (← r.readBytes 4).toNat
  | .varint limit => do return .number (← r.readVarint limit)

def record (request : Request) (i : Nat) : Record :=
  ⟨request, (r.perform request i).1, i, (r.perform request i).2⟩

def records : List Request → Nat → List Record
  | [], _ => []
  | request :: requests, i =>
    r.record request i :: records requests (r.record request i).after

variable {r} {c d : Cursor} {request : Request} {n limit : Nat}

lemma records_of_perform {result : Except Stop Answer} {i j : Nat} (requests : List Request)
    (h : r.perform request i = (result, j)) :
    r.records (request :: requests) i = ⟨request, result, i, j⟩ :: r.records requests j := by
  rw [records, record, h]

/-! ### One request -/

structure Holds (r : Region) (c : Cursor) : Prop where
  label : c.label = r.label
  start : c.start = r.start
  spans : c.Spans r.buffer r.stop
  start_le : r.start ≤ c.position

/-- What becomes of a request, and that it is the same for a cursor and in place. -/
inductive Outcome (r : Region) (c : Cursor) (request : Request) : Prop
  | served {k : Nat} {answer : Answer} (hle : k ≤ c.rest.length)
    (htakes : request.Takes (c.rest.take k) answer)
    (hread : request.read c = .ok (answer, c.advance k))
    (hperform : r.perform request c.position = (.ok answer, c.position + k))
  | failed {fault : Fault} (hfails : request.Fails c.rest fault.kind)
    (hread : request.read c = .error fault)
    (hperform : r.perform request c.position = (.error (.ofFault fault), c.position))

/-- A fault of the number is the fault of the request. -/
lemma outcome_of_fault {fault : Fault} (hfails : (Request.varint limit).Fails c.rest fault.kind)
    (hread : Cursor.readVarint limit c = .error fault)
    (hat : r.varintAt limit c.position = .error (.ofFault fault)) :
    Outcome r c (.varint limit) := by
  refine .failed hfails (run_bind_of_error hread) (bind_of_error (bind_of_error ?_))
  rw [look, hat]

section Holds

variable (h : r.Holds c)
include h

lemma Holds.length_rest : c.rest.length = r.stop - c.position :=
  h.spans.length_rest r.stop_le

lemma ensure_of_le (hle : n ≤ c.rest.length) :
    r.ensure n c.position = (.ok (), c.position) := by
  have hlength := h.length_rest
  have hposition := h.spans.position_le
  exact if_neg (by omega)

lemma ensure_of_lt (hlt : c.rest.length < n) :
    r.ensure n c.position = (.error (.ofFault (c.exhausted n)), c.position) := by
  have hlength := h.length_rest
  rw [Region.ensure, if_pos (by omega), Cursor.exhausted, Cursor.remaining, h.label, hlength]

lemma skip_of_le (hle : n ≤ c.rest.length) :
    r.skip n c.position = (.ok (), c.position + n) :=
  bind_of_ok (ensure_of_le h hle)

lemma readBytes_of_le (hle : n ≤ c.rest.length) :
    r.readBytes n c.position = (.ok (c.rest.take n), c.position + n) := by
  have hlook : look (fun i => Reader.fetchAll r.buffer i n) c.position
      = (.ok (c.rest.take n), c.position) := by
    have hlength := h.length_rest
    have hposition := h.spans.position_le
    have hstop := r.stop_le
    rw [look, Reader.fetchAll_of_le (by omega), h.spans.rest_eq, Bytes.take_between (by omega)]
  refine (bind_of_ok (ensure_of_le h hle)).trans ?_
  exact bind_of_ok hlook

/-- Of the requests that state how many bytes they are for, whatever is made of those. -/
lemma outcome_of_need {f : Bytes → Answer} (hneed : request.need = some n)
    (hread : request.read = do return f (← Cursor.readBytes n))
    (htakes : ∀ taken : Bytes, taken.length = n → request.Takes taken (f taken))
    (hshort : r.ensure n c.position = (.error (.ofFault (c.exhausted n)), c.position) →
      r.perform request c.position = (.error (.ofFault (c.exhausted n)), c.position))
    (henough : n ≤ c.rest.length →
      r.perform request c.position = (.ok (f (c.rest.take n)), c.position + n)) :
    Outcome r c request := by
  rcases Nat.lt_or_ge c.rest.length n with hlt | hle
  · have hnone : request.read c = .error (c.exhausted n) := by
      rw [hread]
      exact run_bind_of_error (Cursor.readBytes_of_lt hlt)
    have hfails : request.Fails c.rest (c.exhausted n).kind := .short hneed hlt
    exact .failed hfails hnone (hshort (ensure_of_lt h hlt))
  · refine .served hle (htakes _ (List.length_take_of_le hle)) ?_ (henough hle)
    rw [hread]
    exact run_bind_of_ok (Cursor.readBytes_of_le hle)

lemma outcome_byte : Outcome r c .byte := by
  have hlength := h.length_rest
  rcases hrest : c.rest with _ | ⟨b, rest⟩
  · have hshort : c.rest.length < 1 := by rw [hrest]; decide
    have hread : Cursor.readByte c = .error (c.exhausted 1) := by rw [Cursor.readByte, hrest]
    have hperform : r.perform .byte c.position = (.error (.ofFault (c.exhausted 1)), c.position) :=
      bind_of_error (bind_of_error (ensure_of_lt h hshort))
    have hfails : Request.byte.Fails c.rest (c.exhausted 1).kind := .short rfl hshort
    exact .failed hfails (run_bind_of_error hread) hperform
  · have hle : 1 ≤ c.rest.length := by rw [hrest]; exact Nat.succ_pos _
    have htake : c.rest.take 1 = [b] := by rw [hrest]; rfl
    have hread : Cursor.readByte c = .ok (b, c.advance 1) := by
      rw [Cursor.readByte_of_cons hrest, Cursor.advance, hrest]
      rfl
    have hfetch : Reader.fetch r.buffer c.position = .ok b := by
      have hstop := r.stop_le
      have hspans := h.spans.rest_eq
      rw [Bytes.between_of_lt (by omega) hstop, hrest] at hspans
      rw [Reader.fetch_of_lt (by omega), ← List.head_eq_of_cons_eq hspans]
    refine .served hle (htake ▸ .byte b) (run_bind_of_ok hread) ?_
    refine (bind_of_ok (j := c.position + 1) (a := b) ?_).trans rfl
    refine (bind_of_ok (ensure_of_le h hle)).trans ?_
    show (Reader.fetch r.buffer c.position, c.position + 1) = _
    rw [hfetch]

/-- The buffer has the number that the cursor reads, or the same fault. -/
lemma varintAt_eq (limit : Nat) :
    r.varintAt limit c.position = match Varint.scan limit c.rest with
      | .value n size _ => .ok (n, size)
      | .tooLarge => .error (.ofFault (.varintTooLarge c.position limit))
      | .cutOff => .error (.ofFault (.varintCutOff c.label c.position)) := by
  have hscan := @Reader.scan_eq r.buffer c.position r.stop limit r.stop_le
  rw [← h.spans.rest_eq] at hscan
  rcases hs : Varint.scan limit c.rest with ⟨n, size, rest⟩ | _ | _
  · rw [hs] at hscan
    rw [varintAt, hscan.1]
    dsimp only
    rw [Nat.add_sub_cancel_left]
  · rw [hs] at hscan
    rw [varintAt, hscan]
    rfl
  · rw [hs] at hscan
    rw [varintAt, hscan, h.label]

lemma outcome_varint (limit : Nat) : Outcome r c (.varint limit) := by
  have hat := varintAt_eq h limit
  obtain hall | ⟨leading, last, rest, hrest, hleading, hlast⟩ := Varint.all_continue_or_ends c.rest
  · have hscan := Varint.scan_of_endless hall limit
    split_ifs at hscan with hle
    · rw [hscan] at hat
      have hfails : (Request.varint limit).Fails c.rest
          (Fault.varintCutOff c.label c.position).kind := .cutOff hall hle
      refine outcome_of_fault hfails ?_ hat
      rw [Cursor.readVarint, hscan]
    · rw [hscan] at hat
      refine outcome_of_fault ?_ ?_ hat
      · have hfront : ∀ b ∈ c.rest.dropLast, Varint.continues b :=
          fun b hb => hall b (List.mem_of_mem_dropLast hb)
        have hfails := Request.Fails.tooLarge hfront (Nat.lt_of_not_le hle) []
        rwa [List.append_nil] at hfails
      · rw [Cursor.readVarint, hscan]
  · have hscan := Varint.scan_of_ends hleading hlast limit rest
    have hfront : c.rest = (leading ++ [last]) ++ rest := by simp [hrest]
    rw [← hrest] at hscan
    split_ifs at hscan with hle
    · rw [hscan] at hat
      have hk : leading.length + 1 ≤ c.rest.length := by simp [hrest]
      have htake : c.rest.take (leading.length + 1) = leading ++ [last] := by
        rw [hfront]
        exact List.take_left' (by simp)
      have hread : Cursor.readVarint limit c
          = .ok (Varint.value (leading ++ [last]), c.advance (leading.length + 1)) := by
        have hdrop : c.rest.drop (leading.length + 1) = rest := by
          rw [hfront]
          exact List.drop_left' (by simp)
        rw [Cursor.readVarint, hscan, Cursor.advance, hdrop]
      refine .served hk ?_ (run_bind_of_ok hread) ?_
      · rw [htake]
        exact .varint hleading hlast hle
      · refine (bind_of_ok (a := Varint.value (leading ++ [last]))
          (j := c.position + (leading.length + 1)) ?_).trans rfl
        refine (bind_of_ok (a := (Varint.value (leading ++ [last]), leading.length + 1))
          (j := c.position) ?_).trans ?_
        · rw [look, hat]
        · exact bind_of_ok (skip_of_le h hk)
    · rw [hscan] at hat
      refine outcome_of_fault ?_ ?_ hat
      · rw [hfront]
        exact .tooLarge (by rwa [List.dropLast_concat]) (Nat.lt_of_not_le hle) rest
      · rw [Cursor.readVarint, hscan]

/-- **One request.** A request takes what it is for from the bytes that are left, in the cursor and
in place alike, or fails in both and moves neither. -/
theorem outcome (request : Request) : Outcome r c request := by
  cases request with
  | byte => exact outcome_byte h
  | bytes n =>
    refine outcome_of_need (f := .bytes) h rfl rfl ?_ ?_ fun hle => ?_
    · rintro taken rfl
      exact .bytes taken
    · exact fun hensure => bind_of_error (bind_of_error hensure)
    · exact bind_of_ok (readBytes_of_le h hle)
  | skip n =>
    have hread : (Request.skip n).read = do
        let _ ← Cursor.readBytes n
        return .bytes [] := by
      simp only [Request.read, Cursor.skip, bind_assoc, pure_bind]
    refine outcome_of_need (f := fun _ => .bytes []) h rfl hread ?_ ?_ fun hle => ?_
    · rintro taken rfl
      exact .skip taken
    · exact fun hensure => bind_of_error (bind_of_error hensure)
    · exact bind_of_ok (skip_of_le h hle)
  | uint32 =>
    have hread : Request.uint32.read = do
        return .number (← Cursor.readBytes 4).toNat := by
      simp only [Request.read, Cursor.readUInt32, bind_assoc, pure_bind]
    refine outcome_of_need (f := fun taken => .number taken.toNat) h rfl hread ?_ ?_ fun hle => ?_
    · exact fun taken hlength => .uint32 hlength
    · exact fun hensure => bind_of_error (bind_of_error hensure)
    · exact bind_of_ok (readBytes_of_le h hle)
  | varint limit => exact outcome_varint h limit

end Holds

/-! ### All requests -/

def taken (r : Region) (record : Record) : Bytes := r.buffer.between record.before record.after

/-- A request keeps to the region. If it succeeds, the bytes that it has passed are those that it is
for; if it fails, it has its reason in the bytes that are left, and has passed none. -/
structure Lawful (r : Region) (record : Record) : Prop where
  start_le : r.start ≤ record.before
  le : record.before ≤ record.after
  le_stop : record.after ≤ r.stop
  given : ∀ answer, record.result = .ok answer → record.request.Takes (r.taken record) answer
  refused : ∀ stopped, record.result = .error stopped → record.after = record.before ∧
    ∃ fault, stopped = .ofFault fault ∧
      record.request.Fails (r.buffer.between record.before r.stop) fault.kind

/-- The regions have the same bounds and the same bytes; around them the buffers may differ. -/
structure Agrees (s r : Region) : Prop where
  label : s.label = r.label
  start : s.start = r.start
  stop : s.stop = r.stop
  bytes : ∀ i, r.start ≤ i → i < r.stop → s.buffer[i]? = r.buffer[i]?

variable {s : Region}

lemma ofRegion_eq (r : Region) :
    Cursor.ofRegion r.label r.buffer r.start r.stop = .ok r.cursor := by
  have hstart := r.start_le
  have hstop := r.stop_le
  rw [Cursor.ofRegion, if_neg (by omega)]
  rfl

lemma holds_cursor (r : Region) : r.Holds r.cursor where
  label := rfl
  start := rfl
  spans := ⟨rfl, r.start_le⟩
  start_le := Nat.le_refl _

lemma Holds.advance (h : r.Holds c) {k : Nat} (hle : k ≤ c.rest.length) :
    r.Holds (c.advance k) where
  label := h.label
  start := h.start
  spans := h.spans.advance r.stop_le hle
  start_le := Nat.le_add_right_of_le h.start_le

lemma Holds.take_rest (h : r.Holds c) {k : Nat} (hle : k ≤ c.rest.length) :
    c.rest.take k = r.buffer.between c.position (c.position + k) := by
  have hlength := h.length_rest
  have hposition := h.spans.position_le
  rw [h.spans.rest_eq, Bytes.take_between (by omega)]

/-- In place, requests do what they do to a cursor that holds the region. -/
lemma records_eq (h : r.Holds c) (requests : List Request) :
    r.records requests c.position = c.records requests := by
  induction requests generalizing c with
  | nil => rfl
  | cons request requests ih =>
    cases outcome h request with
    | served hle htakes hread hperform =>
      rw [records_of_perform requests hperform, Cursor.records_of_ok requests hread]
      exact congrArg (_ :: ·) (ih (h.advance hle))
    | failed hfails hread hperform =>
      rw [records_of_perform requests hperform, Cursor.records_of_error requests hread, ih h]

lemma holds_after (h : r.Holds c) (requests : List Request) : r.Holds (c.after requests) := by
  induction requests generalizing c with
  | nil => exact h
  | cons request requests ih =>
    cases outcome h request with
    | served hle htakes hread hperform =>
      rw [Cursor.after_of_ok requests hread]
      exact ih (h.advance hle)
    | failed hfails hread hperform =>
      rw [Cursor.after_of_error requests hread]
      exact ih h

lemma lawful_of_mem_records (h : r.Holds c) (requests : List Request) :
    ∀ record ∈ c.records requests, r.Lawful record := by
  induction requests generalizing c with
  | nil => simp [Cursor.records]
  | cons request requests ih =>
    have hlength := h.length_rest
    have hposition := h.spans.position_le
    cases outcome h request with
    | served hle htakes hread hperform =>
      rw [h.take_rest hle] at htakes
      rw [Cursor.records_of_ok requests hread]
      refine List.forall_mem_cons.2 ⟨⟨h.start_le, Nat.le_add_right _ _, ?_, ?_, nofun⟩,
        ih (h.advance hle)⟩
      · show c.position + _ ≤ r.stop
        omega
      · rintro answer hanswer
        cases hanswer
        exact htakes
    | @failed fault hfails hread hperform =>
      rw [h.spans.rest_eq] at hfails
      rw [Cursor.records_of_error requests hread]
      refine List.forall_mem_cons.2 ⟨⟨h.start_le, Nat.le_refl _, hposition, nofun, ?_⟩, ih h⟩
      rintro stopped hstopped
      cases hstopped
      exact ⟨rfl, fault, rfl, hfails⟩

/-- What requests have passed, one after the other, are the bytes between the first position and the
last. -/
lemma flatMap_taken_records (h : r.Holds c) (requests : List Request) :
    (c.records requests).flatMap r.taken
      = r.buffer.between c.position (c.after requests).position ∧
      c.position ≤ (c.after requests).position := by
  induction requests generalizing c with
  | nil => exact ⟨(Bytes.between_self _ _).symm, Nat.le_refl _⟩
  | cons request requests ih =>
    cases outcome h request with
    | @served k answer hle htakes hread hperform =>
      obtain ⟨hrest, hlast⟩ := ih (h.advance hle)
      rw [Cursor.records_of_ok requests hread, Cursor.after_of_ok requests hread,
        List.flatMap_cons, hrest]
      have hnext : c.position ≤ (c.advance k).position := Nat.le_add_right _ _
      exact ⟨Bytes.between_append_between hnext hlast, Nat.le_trans hnext hlast⟩
    | failed hfails hread hperform =>
      obtain ⟨hrest, hlast⟩ := ih h
      rw [Cursor.records_of_error requests hread, Cursor.after_of_error requests hread,
        List.flatMap_cons, taken, Bytes.between_self]
      exact ⟨hrest, hlast⟩

/-- A cursor holds nothing of the buffer but the bytes of its region. -/
lemma Agrees.cursor_eq (h : s.Agrees r) : s.cursor = r.cursor := by
  have hbytes : s.bytes = r.bytes := by
    refine List.ext_getElem? fun i => ?_
    simp only [Region.bytes, Bytes.between, List.getElem?_take, List.getElem?_drop, h.start, h.stop]
    split_ifs with hlt
    · exact h.bytes _ (Nat.le_add_right _ _) (by omega)
    · rfl
  rw [Region.cursor, Region.cursor, h.label, h.start, hbytes]

/-- **Regions.** Whatever is asked of a cursor, it stays in its region, and in place the same comes
of it. Each request that succeeds takes the bytes that it is for, each that fails takes none, and
what is taken is the front of the region, byte by byte. The bytes around the region do not count. -/
theorem lawful_records (r : Region) (requests : List Request) :
    Cursor.ofRegion r.label r.buffer r.start r.stop = .ok r.cursor ∧
      let records := r.records requests r.start
      let c := r.cursor.after requests
      records = r.cursor.records requests ∧
        r.start ≤ c.position ∧ c.position ≤ r.stop ∧
        (∀ record ∈ records, r.Lawful record) ∧
        records.flatMap r.taken = r.bytes.take c.consumed ∧
        ∀ s : Region, s.Agrees r → s.records requests s.start = records := by
  have hholds := holds_cursor r
  have heq : r.records requests r.start = r.cursor.records requests := records_eq hholds requests
  have hafter := holds_after hholds requests
  refine ⟨ofRegion_eq r, heq, hafter.start_le, hafter.spans.position_le, ?_, ?_, fun s hs => ?_⟩
  · rw [heq]
    exact lawful_of_mem_records hholds requests
  · obtain ⟨htaken, -⟩ := flatMap_taken_records hholds requests
    have hle := hafter.start_le
    have hstop := hafter.spans.position_le
    rw [heq, htaken, Region.bytes, Cursor.consumed, hafter.start, Bytes.take_between (by omega),
      Nat.add_sub_cancel' hle]
    rfl
  · rw [heq, ← hs.cursor_eq]
    exact records_eq (holds_cursor s) requests

/-- Of the requests, the third wants more than is left. The number that the last one asks for would
end with the byte behind the region, which is another one in the other buffer. -/
theorem lawful_records_cutOff :
    let r : Region :=
      ⟨"data section", [9, 0x87, 0x68, 5, 6, 0x81, 0], 1, 6, by decide, by decide⟩
    let s : Region :=
      ⟨"data section", [0, 0x87, 0x68, 5, 6, 0x81, 7], 1, 6, by decide, by decide⟩
    let requests : List Request := [.varint 1000, .byte, .bytes 3, .skip 1, .varint 200]
    s.Agrees r ∧ (r.records requests 1).flatMap r.taken = [0x87, 0x68, 5, 6] ∧
      s.records requests 1 =
        [⟨.varint 1000, .ok (.number 1000), 1, 3⟩, ⟨.byte, .ok (.bytes [5]), 3, 4⟩,
          ⟨.bytes 3, .error (.ofFault (.sectionExhausted "data section" 3 4 2)), 4, 4⟩,
          ⟨.skip 1, .ok (.bytes []), 4, 5⟩,
          ⟨.varint 200, .error (.ofFault (.varintCutOff "data section" 5)), 5, 5⟩] := by
  intro r s requests
  have hagrees : s.Agrees r := ⟨rfl, rfl, rfl, by decide⟩
  obtain ⟨-, hcursor, -, -, -, htaken, hagree⟩ := lawful_records r requests
  refine ⟨hagrees, htaken.trans (by decide), ?_⟩
  rw [hagree s hagrees, hcursor]
  decide

end Region

end Vcdiff.Cursor
