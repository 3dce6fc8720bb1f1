import Vcdiff.Proofs.Incremental

/-!
Reading by index. A parser takes bytes off the front of what is left; a reader fetches them one at
a time from the whole buffer, by their index, and stops at once when there is no byte at an index.
Readers make the checks that parsers make, and those are enough: a reader does what its parser does,
so it never fetches a byte that is not there.
-/

namespace Vcdiff

inductive Stop where
  | halt (halt : Halt)
  /-- There is no byte at the index. -/
  | outside (index : Nat)
  deriving DecidableEq

def Stop.ofFault (fault : Fault) : Stop := .halt (.invalid fault)

/-- Reads from the index on, and gives the index after the last byte that it has used. -/
abbrev Reader (α : Type) := StateT Nat (Except Stop) α

section Bind

variable {σ ε α β : Type} {x : StateT σ (Except ε) α} {f : α → StateT σ (Except ε) β} {s : σ}

lemma run_bind_of_ok {a : α} {t : σ} (h : x s = .ok (a, t)) : (x >>= f) s = f a t := by
  show Except.bind (x s) (fun y => f y.1 y.2) = _
  rw [h]
  rfl

lemma run_bind_of_error {e : ε} (h : x s = .error e) : (x >>= f) s = .error e := by
  show Except.bind (x s) (fun y => f y.1 y.2) = _
  rw [h]
  rfl

end Bind

namespace Reader

section Fetch

variable (bytes : Bytes)

def fetch (index : Nat) : Except Stop UInt8 :=
  match bytes[index]? with
  | some b => .ok b
  | none => .error (.outside index)

def fetchAll (index : Nat) : Nat → Except Stop Bytes
  | 0 => .ok []
  | n + 1 => do
    let b ← fetch bytes index
    let rest ← fetchAll (index + 1) n
    return b :: rest

/-- Reads on in a number that begins at `start`, after bytes that make `acc`: the number and the
index after it, or none if it goes on past `stop`. -/
def scan (limit start stop acc index : Nat) : Except Stop (Option (Nat × Nat)) :=
  if index < stop then
    match fetch bytes index with
    | .error outside => .error outside
    | .ok b =>
      let n := acc * 128 + Varint.group b
      if limit < n then .error (.halt (.invalid (.varintTooLarge start limit)))
      else if Varint.continues b then scan limit start stop n (index + 1)
      else .ok (some (n, index + 1))
  else .ok none
termination_by stop - index

variable {bytes} {i n stop limit start acc size : Nat}

lemma fetch_of_lt (h : i < bytes.length) : fetch bytes i = .ok bytes[i] := by
  rw [fetch, List.getElem?_eq_getElem h]

lemma fetchAll_of_le (h : i + n ≤ bytes.length) :
    fetchAll bytes i n = .ok (bytes.between i (i + n)) := by
  induction n generalizing i with
  | zero =>
    rw [Nat.add_zero, Bytes.between_self]
    rfl
  | succ n ih =>
    have hrest := ih (i := i + 1) (by omega)
    rw [fetchAll, fetch_of_lt (by omega), hrest, Bytes.between_of_lt (by omega) h]
    have hstop : i + 1 + n = i + (n + 1) := by omega
    rw [hstop]
    rfl

lemma scan_scanFrom (hstop : stop ≤ bytes.length) (size : Nat) :
    match Varint.scanFrom limit acc size (bytes.between i stop) with
    | .value n k rest => ∃ next, scan bytes limit start stop acc i = .ok (some (n, next)) ∧
        next + size = i + k ∧ next ≤ stop ∧ rest = bytes.between next stop
    | .tooLarge => scan bytes limit start stop acc i
        = .error (.halt (.invalid (.varintTooLarge start limit)))
    | .cutOff => scan bytes limit start stop acc i = .ok none := by
  induction hleft : stop - i generalizing i acc size with
  | zero =>
    have hempty : bytes.between i stop = [] := by
      rw [Bytes.between, hleft, List.take_zero]
    rw [hempty, scan, if_neg (by omega)]
    rfl
  | succ left ih =>
    have hlt : i < stop := by omega
    have hfetch : fetch bytes i = .ok bytes[i] := fetch_of_lt (by omega)
    rw [Bytes.between_of_lt hlt hstop, scan, if_pos hlt, hfetch, Varint.scanFrom]
    dsimp only
    by_cases hlarge : limit < acc * 128 + Varint.group bytes[i]
    · rw [if_pos hlarge, if_pos hlarge]
    · rw [if_neg hlarge, if_neg hlarge]
      by_cases hmore : Varint.continues bytes[i]
      · rw [if_pos hmore, if_pos hmore]
        have hrest := @ih (i + 1) (acc * 128 + Varint.group bytes[i]) (size + 1) (by omega)
        rcases hscan : Varint.scanFrom limit (acc * 128 + Varint.group bytes[i]) (size + 1)
            (bytes.between (i + 1) stop) with ⟨n, k, rest⟩ | _ | _
        · rw [hscan] at hrest
          obtain ⟨next, hnext, hsize, hle, hrest⟩ := hrest
          exact ⟨next, hnext, by omega, hle, hrest⟩
        · rw [hscan] at hrest
          exact hrest
        · rw [hscan] at hrest
          exact hrest
      · rw [if_neg hmore, if_neg hmore]
        exact ⟨i + 1, rfl, by omega, hlt, rfl⟩

/-- A number is read by index as it is scanned in the bytes up to `stop`. -/
lemma scan_eq (hstop : stop ≤ bytes.length) :
    match Varint.scan limit (bytes.between i stop) with
    | .value n k rest => scan bytes limit i stop 0 i = .ok (some (n, i + k)) ∧
        i + k ≤ stop ∧ rest = bytes.between (i + k) stop
    | .tooLarge => scan bytes limit i stop 0 i
        = .error (.halt (.invalid (.varintTooLarge i limit)))
    | .cutOff => scan bytes limit i stop 0 i = .ok none := by
  have hscan := @scan_scanFrom bytes i stop limit i 0 hstop 0
  rw [Varint.scan]
  rcases hs : Varint.scanFrom limit 0 0 (bytes.between i stop) with ⟨n, k, rest⟩ | _ | _
  · rw [hs] at hscan
    obtain ⟨after, hafter, hsize, hle, hrest⟩ := hscan
    rw [Nat.add_zero] at hsize
    rw [hsize] at hafter hle hrest
    exact ⟨hafter, hle, hrest⟩
  · rw [hs] at hscan
    exact hscan
  · rw [hs] at hscan
    exact hscan

end Fetch

/-! ### Readers -/

section Readers

variable {α : Type} (bytes : Bytes) (stop : Nat)

def position : Reader Nat := fun i => .ok (i, i)

def failIf (c : Prop) [Decidable c] (fault : Fault) : Reader Unit := fun i =>
  if c then .error (.halt (.invalid fault)) else .ok ((), i)

def need (n : Nat) : Reader Unit := fun i =>
  if stop < i + n then .error (.halt (.incomplete (i + n - stop))) else .ok ((), i)

/-- The next byte, which is not checked to be there. -/
def next : Reader UInt8 := fun i =>
  match fetch bytes i with
  | .ok b => .ok (b, i + 1)
  | .error outside => .error outside

/-- The next `n` bytes, which are not checked to be there. -/
def nextAll (n : Nat) : Reader Bytes := fun i =>
  match fetchAll bytes i n with
  | .ok taken => .ok (taken, i + n)
  | .error outside => .error outside

/-- The next byte before `stop`; where there is none, `missing` bytes are missing. -/
def byte (missing : Nat) : Reader UInt8 := fun i =>
  if stop ≤ i then .error (.halt (.incomplete missing)) else next bytes i

def take (n : Nat) : Reader Bytes := do
  need stop n
  nextAll bytes n

def slice (start n : Nat) : Reader Bytes := fun i =>
  match fetchAll bytes start n with
  | .ok taken => .ok (taken, i)
  | .error outside => .error outside

def varint : Reader Nat := fun i =>
  match scan bytes Varint.maxValue i stop 0 i with
  | .ok (some (n, after)) => .ok (n, after)
  | .ok none => .error (.halt (.incomplete 1))
  | .error stopped => .error stopped

def orFault (r : Reader α) (fault : Fault) : Reader α := fun i =>
  match r i with
  | .error (.halt (.incomplete _)) => .error (.halt (.invalid fault))
  | result => result

def within (n : Nat) (r : Nat → Reader α) : Reader α := do
  need stop n
  fun i => match r (i + n) i with
    | .ok (a, _) => .ok (a, i + n)
    | .error stopped => .error stopped

variable {bytes stop} {i n : Nat}

lemma eq_of_failIf {c : Prop} [Decidable c] {fault : Fault} {r : Unit × Nat}
    (h : failIf c fault i = .ok r) : ¬ c ∧ r = ((), i) := by
  unfold failIf at h
  split at h <;> cases h
  exact ⟨‹_›, rfl⟩

lemma failIf_of_not {c : Prop} [Decidable c] {fault : Fault} (h : ¬ c) :
    failIf c fault i = .ok ((), i) := if_neg h

lemma eq_of_need {r : Unit × Nat} (h : need stop n i = .ok r) : i + n ≤ stop ∧ r = ((), i) := by
  unfold need at h
  split at h <;> cases h
  exact ⟨by omega, rfl⟩

lemma index_of_next {b : UInt8} {j : Nat} (h : next bytes i = .ok (b, j)) : j = i + 1 := by
  unfold next at h
  split at h <;> cases h
  rfl

lemma index_of_byte {b : UInt8} {missing j : Nat} (h : byte bytes stop missing i = .ok (b, j)) :
    j = i + 1 := by
  unfold byte at h
  split at h
  · cases h
  · exact index_of_next h

lemma need_of_le (h : i + n ≤ stop) : need stop n i = .ok ((), i) := if_neg (by omega)

lemma need_of_lt (h : stop < i + n) :
    need stop n i = .error (.halt (.incomplete (i + n - stop))) := if_pos h

lemma next_of_lt (h : i < bytes.length) : next bytes i = .ok (bytes[i], i + 1) := by
  rw [next, fetch_of_lt h]

lemma nextAll_of_le (h : i + n ≤ bytes.length) :
    nextAll bytes n i = .ok (bytes.between i (i + n), i + n) := by
  rw [nextAll, fetchAll_of_le h]

lemma slice_of_le {start : Nat} (h : start + n ≤ bytes.length) :
    slice bytes start n i = .ok (bytes.between start (start + n), i) := by
  rw [slice, fetchAll_of_le h]

end Readers

/-! ### Readers and parsers -/

section Agrees

variable {α β : Type} {bytes : Bytes} {stop i n : Nat}

def front (bytes : Bytes) (stop index : Nat) : Input :=
  .ofBytes index (bytes.between index stop)

/-- What a parser makes of its input, said of indices. -/
def Mirrors (bytes : Bytes) (stop : Nat) :
    Except Halt (α × Input) → Except Stop (α × Nat) → Prop
  | .ok (a, j), result =>
    result = .ok (a, j.position) ∧ j.position ≤ stop ∧ j = front bytes stop j.position
  | .error halt, result => result = .error (.halt halt)

/-- From the index on, the reader does in the bytes up to `stop` what the parser does. -/
def Agrees (bytes : Bytes) (stop : Nat) (r : Reader α) (p : Parser α) (index : Nat) : Prop :=
  Mirrors bytes stop (p (front bytes stop index)) (r index)

lemma agrees_ok {r : Reader α} {p : Parser α} {a : α} {j : Nat} (hr : r i = .ok (a, j))
    (hp : p (front bytes stop i) = .ok (a, front bytes stop j)) (hj : j ≤ stop) :
    Agrees bytes stop r p i := by
  rw [Agrees, hp]
  exact ⟨hr, hj, rfl⟩

lemma agrees_error {r : Reader α} {p : Parser α} (halt : Halt)
    (hr : r i = .error (.halt halt)) (hp : p (front bytes stop i) = .error halt) :
    Agrees bytes stop r p i := by
  rw [Agrees, hp]
  exact hr

lemma agrees_pure (a : α) (hi : i ≤ stop) :
    Agrees bytes stop (pure a : Reader α) (pure a : Parser α) i :=
  agrees_ok rfl rfl hi

/-- What the first reader gives, and the index that it leaves, may bear on the second. -/
lemma agrees_bind {r : Reader α} {p : Parser α} {f : α → Reader β} {g : α → Parser β}
    (h : Agrees bytes stop r p i)
    (hf : ∀ a j, r i = .ok (a, j) → j ≤ stop → Agrees bytes stop (f a) (g a) j) :
    Agrees bytes stop (r >>= f) (p >>= g) i := by
  rw [Agrees] at h
  rcases hp : p (front bytes stop i) with halt | ⟨a, j⟩
  · rw [hp] at h
    exact agrees_error halt (run_bind_of_error h) (Parser.bind_of_error hp)
  · rw [hp] at h
    obtain ⟨hr, hle, hj⟩ := h
    have hnext := hf a j.position hr hle
    rw [Agrees, ← hj] at hnext
    rw [Agrees, Parser.bind_of_ok hp, run_bind_of_ok hr]
    exact hnext

lemma agrees_map {r : Reader α} {p : Parser α} (f : α → β) (h : Agrees bytes stop r p i) :
    Agrees bytes stop (f <$> r) (f <$> p) i := by
  rw [← bind_pure_comp, ← bind_pure_comp]
  exact agrees_bind h fun a j _ hj => agrees_pure (f a) hj

lemma agrees_position (hi : i ≤ stop) : Agrees bytes stop position Parser.position i :=
  agrees_ok rfl rfl hi

lemma agrees_failIf (c : Prop) [Decidable c] (fault : Fault) (hi : i ≤ stop) :
    Agrees bytes stop (failIf c fault) (Parser.failIf c fault) i := by
  by_cases h : c
  · exact agrees_error (.invalid fault) (if_pos h) (if_pos h)
  · exact agrees_ok (if_neg h) (if_neg h) hi

variable (hstop : stop ≤ bytes.length)
include hstop

lemma length_rest_front : (front bytes stop i).rest.length = stop - i := by
  rw [front, Input.ofBytes, Bytes.length_between]
  omega

lemma need_front (h : i + n ≤ stop) :
    Parser.need n (front bytes stop i) = .ok ((), front bytes stop i) := by
  have hlength := length_rest_front (i := i) hstop
  exact Parser.need_of_le (by omega)

lemma need_front_of_lt (hi : i ≤ stop) (h : stop < i + n) :
    Parser.need n (front bytes stop i) = .error (.incomplete (i + n - stop)) := by
  have hlength := length_rest_front (i := i) hstop
  have hmissing : n - (front bytes stop i).rest.length = i + n - stop := by omega
  rw [Parser.need_of_lt (by omega), hmissing]

lemma take_front (h : i + n ≤ stop) :
    Parser.take n (front bytes stop i)
      = .ok (bytes.between i (i + n), front bytes stop (i + n)) := by
  have htaken : (front bytes stop i).rest.take n = bytes.between i (i + n) :=
    Bytes.take_between h
  have hdrop : (front bytes stop i).drop n = front bytes stop (i + n) := by
    rw [front, Input.drop, Input.ofBytes, Bytes.drop_between]
    rfl
  rw [Parser.take, Parser.bind_of_ok (need_front hstop h), htaken, hdrop]

lemma take_front_of_lt (hi : i ≤ stop) (h : stop < i + n) :
    Parser.take n (front bytes stop i) = .error (.incomplete (i + n - stop)) :=
  Parser.bind_of_error (need_front_of_lt hstop hi h)

lemma agrees_need (hi : i ≤ stop) : Agrees bytes stop (need stop n) (Parser.need n) i := by
  rcases Nat.lt_or_ge stop (i + n) with hlt | hle
  · exact agrees_error _ (need_of_lt hlt) (need_front_of_lt hstop hi hlt)
  · exact agrees_ok (need_of_le hle) (need_front hstop hle) hi

/-- A byte need not be checked where it is known to be there. -/
lemma agrees_next (unit : Nat) (hi : i < stop) :
    Agrees bytes stop (next bytes) (Parser.byte unit) i := by
  refine agrees_ok (next_of_lt (by omega)) ?_ hi
  rw [front, Bytes.between_of_lt hi hstop]
  exact Parser.byte_cons unit i 0 _ _

lemma agrees_byte {missing unit : Nat} (hi : i ≤ stop) (hunit : i = stop → missing = unit) :
    Agrees bytes stop (byte bytes stop missing) (Parser.byte unit) i := by
  rcases Nat.lt_or_ge i stop with hlt | hle
  · have hbyte : byte bytes stop missing i = next bytes i := if_neg (by omega)
    rw [Agrees, hbyte]
    exact agrees_next hstop unit hlt
  · have heq : i = stop := Nat.le_antisymm hi hle
    refine agrees_error _ (if_pos hle) ?_
    rw [heq, hunit heq, front, Bytes.between_self]
    rfl

lemma agrees_nextAll (hi : i + n ≤ stop) :
    Agrees bytes stop (nextAll bytes n) (Parser.take n) i :=
  agrees_ok (nextAll_of_le (by omega)) (take_front hstop hi) hi

lemma agrees_take (hi : i ≤ stop) : Agrees bytes stop (take bytes stop n) (Parser.take n) i := by
  rcases Nat.lt_or_ge stop (i + n) with hlt | hle
  · exact agrees_error _ (run_bind_of_error (need_of_lt hlt)) (take_front_of_lt hstop hi hlt)
  · have htake : take bytes stop n i = nextAll bytes n i := run_bind_of_ok (need_of_le hle)
    rw [Agrees, htake]
    exact agrees_nextAll hstop hle

lemma agrees_varint : Agrees bytes stop (varint bytes stop) Parser.varint i := by
  have hscan := @scan_eq bytes i stop Varint.maxValue hstop
  rcases hs : Varint.scan Varint.maxValue (bytes.between i stop) with ⟨n, k, rest⟩ | _ | _
  · rw [hs] at hscan
    obtain ⟨hread, hle, hrest⟩ := hscan
    refine agrees_ok (a := n) (j := i + k) ?_ ?_ hle
    · rw [varint, hread]
    · rw [Parser.varint_of_value (i := front bytes stop i) hs, hrest]
      rfl
  · rw [hs] at hscan
    refine agrees_error _ ?_ (Parser.varint_of_tooLarge (i := front bytes stop i) hs)
    rw [varint, hscan]
    rfl
  · rw [hs] at hscan
    refine agrees_error _ ?_ (Parser.varint_of_cutOff (i := front bytes stop i) hs)
    rw [varint, hscan]

omit hstop in
lemma agrees_orFault {r : Reader α} {p : Parser α} (h : Agrees bytes stop r p i) (fault : Fault) :
    Agrees bytes stop (orFault r fault) (p.orFault fault) i := by
  rw [Agrees] at h
  rcases hp : p (front bytes stop i) with (missing | found) | ⟨a, j⟩
  · rw [hp] at h
    have hr : r i = .error (.halt (.incomplete missing)) := h
    refine agrees_error (.invalid fault) ?_ ?_
    · rw [orFault, hr]
    · rw [Parser.orFault, hp]
  · rw [hp] at h
    have hr : r i = .error (.halt (.invalid found)) := h
    refine agrees_error (.invalid found) ?_ ?_
    · rw [orFault, hr]
    · rw [Parser.orFault, hp]
  · rw [hp] at h
    obtain ⟨hr, hle, hj⟩ := h
    refine agrees_ok (a := a) (j := j.position) ?_ ?_ hle
    · rw [orFault, hr]
    · rw [Parser.orFault, hp, ← hj]

/-- A parser within the next `n` bytes is given those, a reader the index that they end at. -/
lemma agrees_within {r : Nat → Reader α} {p : Parser α} (hi : i ≤ stop)
    (h : i + n ≤ stop → Agrees bytes (i + n) (r (i + n)) p i) :
    Agrees bytes stop (within stop n r) (do
      let start ← Parser.position
      let taken ← Parser.take n
      Parser.within start taken p) i := by
  have hparser : (do
      let start ← Parser.position
      let taken ← Parser.take n
      Parser.within start taken p) (front bytes stop i)
      = (Parser.take n >>= fun taken => Parser.within i taken p) (front bytes stop i) := rfl
  rcases Nat.lt_or_ge stop (i + n) with hlt | hle
  · refine agrees_error (.incomplete (i + n - stop)) (run_bind_of_error (need_of_lt hlt)) ?_
    rw [hparser, Parser.bind_of_error (take_front_of_lt hstop hi hlt)]
  · have hinside := h hle
    have hreader : within stop n r i = match r (i + n) i with
        | .ok (a, _) => .ok (a, i + n)
        | .error stopped => .error stopped := run_bind_of_ok (need_of_le hle)
    rw [Agrees] at hinside
    rcases hp : p (front bytes (i + n) i) with halt | ⟨a, j⟩
    · rw [hp] at hinside
      have hr : r (i + n) i = .error (.halt halt) := hinside
      refine agrees_error halt ?_ ?_
      · rw [hreader, hr]
      · rw [hparser, Parser.bind_of_ok (take_front hstop hle)]
        exact Parser.within_of_error _ hp
    · rw [hp] at hinside
      obtain ⟨hr, -, -⟩ := hinside
      refine agrees_ok (a := a) (j := i + n) ?_ ?_ hle
      · rw [hreader, hr]
      · rw [hparser, Parser.bind_of_ok (take_front hstop hle)]
        exact Parser.within_of_ok _ hp

end Agrees

end Reader

end Vcdiff
