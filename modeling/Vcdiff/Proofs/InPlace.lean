import Vcdiff.Proofs.Copy

/-!
A copy in place. The target has its full length from the start, and beyond the bytes produced so
far it holds whatever its memory held before. A copy moves the bytes of the segment at once, then
those of the target: at once as well if they end before the bytes being written, else one at a
time, since each may have been written by the same copy.

Every access to memory is logged. The one invariant (`Reached`) says what has been written by then,
that all of it has been stored, and that nothing has been fetched that was not there.
-/

namespace Vcdiff.Target

/-- Addresses count through the segment and then on through the target. Only the target is
written, so a byte is stored at its index in the target. -/
inductive Access where
  | fetch (address : Nat)
  | store (index : Nat)
  deriving DecidableEq

/-- The memory of a target, and the accesses so far, the newest first. -/
structure Memory where
  bytes : Array UInt8
  accesses : List Access
  deriving DecidableEq

namespace Memory

def fetch (source : Array UInt8) (address : Nat) : StateM Memory UInt8 := fun m =>
  ((source ++ m.bytes)[address]?.getD 0, { m with accesses := .fetch address :: m.accesses })

def store (index : Nat) (byte : UInt8) : StateM Memory Unit := fun m =>
  ((), { bytes := m.bytes.setIfInBounds index byte, accesses := .store index :: m.accesses })

def fetchAll (source : Array UInt8) (address : Nat) : Nat → StateM Memory Bytes
  | 0 => pure []
  | n + 1 => do
    let byte ← fetch source address
    let bytes ← fetchAll source (address + 1) n
    return byte :: bytes

def storeAll (index : Nat) : Bytes → StateM Memory Unit
  | [] => pure ()
  | byte :: bytes => do
    store index byte
    storeAll (index + 1) bytes

/-- Moves bytes at once: all are fetched before the first is stored. -/
def moveAll (source : Array UInt8) (address index n : Nat) : StateM Memory Unit := do
  let bytes ← fetchAll source address n
  storeAll index bytes

/-- Moves bytes one at a time: each is stored before the next is fetched. -/
def moveEach (source : Array UInt8) (address index : Nat) : Nat → StateM Memory Unit
  | 0 => pure ()
  | n + 1 => do
    let byte ← fetch source address
    store index byte
    moveEach source (address + 1) (index + 1) n

/-- Moves bytes at once if they end before the bytes being written. -/
def move (source : Array UInt8) (address index n : Nat) : StateM Memory Unit :=
  if address + n ≤ source.size + index then moveAll source address index n
  else moveEach source address index n

/-- Copies `n` bytes from an address on to where the bytes produced so far end, and gives the
number of bytes produced after it. -/
def copy (source : Array UInt8) (produced address n : Nat) : StateM Memory Nat := do
  let fromSource := min n (source.size - address)
  moveAll source address produced fromSource
  move source (address + fromSource) (produced + fromSource) (n - fromSource)
  return produced + n

/-- Every byte that was fetched was there: it lies in the segment or in the target below
`produced`, or it had been stored before. -/
def Sound (sourceSize produced : Nat) : List Access → Prop
  | [] => True
  | .store _ :: earlier => Sound sourceSize produced earlier
  | .fetch address :: earlier =>
    (address < sourceSize + produced ∨
      ∃ index, address = sourceSize + index ∧ .store index ∈ earlier) ∧
    Sound sourceSize produced earlier

/-- The bytes `written` stand at the front of the target, those from `produced` on having been
stored, and `rest` is what its memory held before. -/
structure Reached (source : Array UInt8) (produced : Nat) (written rest : Bytes) (m : Memory) :
    Prop where
  bytes : m.bytes.toList = written ++ rest
  sound : Sound source.size produced m.accesses
  stored : ∀ index, produced ≤ index → index < written.length → .store index ∈ m.accesses

section Reached

variable {source : Array UInt8} {produced address n : Nat} {written rest bytes : Bytes}
  {m : Memory}

lemma Reached.fetch (h : Reached source produced written rest m)
    (hlt : address < (source.toList ++ written).length) :
    ∃ t, Memory.fetch source address m = ((source.toList ++ written)[address], t) ∧
      Reached source produced written rest t := by
  have hsize : address < source.size + written.length := by simpa using hlt
  have hbyte : (source ++ m.bytes)[address]? = some (source.toList ++ written)[address] := by
    rw [← Array.getElem?_toList, Array.toList_append, h.bytes, ← List.append_assoc,
      List.getElem?_append_left hlt, List.getElem?_eq_getElem hlt]
  have hthere : address < source.size + produced ∨
      ∃ index, address = source.size + index ∧ .store index ∈ m.accesses := by
    by_cases hlow : address < source.size + produced
    · exact .inl hlow
    · exact .inr ⟨address - source.size, by omega, h.stored _ (by omega) (by omega)⟩
  refine ⟨{ m with accesses := .fetch address :: m.accesses }, ?_, h.bytes, ?_, ?_⟩
  · rw [Memory.fetch, hbyte, Option.getD_some]
  · exact And.intro hthere h.sound
  · exact fun index hle hlt => List.mem_cons_of_mem _ (h.stored index hle hlt)

lemma Reached.store {old : UInt8} (h : Reached source produced written (old :: rest) m)
    (byte : UInt8) :
    ∃ t, Memory.store written.length byte m = ((), t) ∧
      Reached source produced (written ++ [byte]) rest t := by
  refine ⟨_, rfl, ?_, h.sound, fun index hle hlt => ?_⟩
  · simp [h.bytes]
  · rw [List.length_append, List.length_singleton] at hlt
    by_cases hlast : index = written.length
    · rw [hlast]
      exact List.mem_cons_self
    · exact List.mem_cons_of_mem _ (h.stored index hle (by omega))

lemma Reached.fetchAll (h : Reached source produced written rest m)
    (hle : address + n ≤ (source.toList ++ written).length) :
    ∃ t, Memory.fetchAll source address n m
        = (((source.toList ++ written).drop address).take n, t) ∧
      Reached source produced written rest t := by
  induction n generalizing address m with
  | zero => exact ⟨m, rfl, h⟩
  | succ n ih =>
    have hlt : address < (source.toList ++ written).length := by omega
    obtain ⟨t, hfetch, ht⟩ := h.fetch hlt
    obtain ⟨u, hfetchAll, hu⟩ := @ih (address + 1) t ht (by omega)
    refine ⟨u, ?_, hu⟩
    show (fun r : Bytes × Memory => ((Memory.fetch source address m).1 :: r.1, r.2))
      (Memory.fetchAll source (address + 1) n (Memory.fetch source address m).2) = _
    rw [hfetch, hfetchAll, List.drop_eq_getElem_cons hlt, List.take_succ_cons]

lemma Reached.storeAll (h : Reached source produced written rest m)
    (hle : bytes.length ≤ rest.length) :
    ∃ t, Memory.storeAll written.length bytes m = ((), t) ∧
      Reached source produced (written ++ bytes) (rest.drop bytes.length) t := by
  induction bytes generalizing written rest m with
  | nil => exact ⟨m, rfl, by simpa using h⟩
  | cons byte bytes ih =>
    rcases rest with _ | ⟨old, rest⟩
    · simp at hle
    · obtain ⟨t, hstore, ht⟩ := h.store byte
      obtain ⟨u, hstoreAll, hu⟩ := ih ht (by simpa using hle)
      refine ⟨u, ?_, by simpa using hu⟩
      show Memory.storeAll (written.length + 1) bytes (Memory.store written.length byte m).2 = _
      rw [hstore, ← hstoreAll, List.length_append, List.length_singleton]

/-- A stretch that ends before the bytes being written may be moved at once. -/
lemma Reached.moveAll (h : Reached source produced written rest m) (hroom : n ≤ rest.length)
    (hle : address + n ≤ (source.toList ++ written).length) :
    ∃ t, Memory.moveAll source address written.length n m = ((), t) ∧
      Reached source produced (copyBytes source.toList written address n) (rest.drop n) t := by
  have hlength : (((source.toList ++ written).drop address).take n).length = n := by
    rw [List.length_take, List.length_drop]
    omega
  obtain ⟨t, hfetchAll, ht⟩ := h.fetchAll hle
  obtain ⟨u, hstoreAll, hu⟩ := ht.storeAll (by rwa [hlength])
  refine ⟨u, ?_, ?_⟩
  · show Memory.storeAll written.length (Memory.fetchAll source address n m).1
      (Memory.fetchAll source address n m).2 = _
    rw [hfetchAll, hstoreAll]
  · rwa [hlength, ← copyBytes_of_le hle] at hu

lemma Reached.moveEach (h : Reached source produced written rest m) (hroom : n ≤ rest.length)
    (hlt : address < (source.toList ++ written).length) :
    ∃ t, Memory.moveEach source address written.length n m = ((), t) ∧
      Reached source produced (copyBytes source.toList written address n) (rest.drop n) t := by
  induction n generalizing address written rest m with
  | zero => exact ⟨m, rfl, h⟩
  | succ n ih =>
    rcases rest with _ | ⟨old, rest⟩
    · simp at hroom
    · obtain ⟨t, hfetch, ht⟩ := h.fetch hlt
      obtain ⟨u, hstore, hu⟩ := ht.store (source.toList ++ written)[address]
      have hlt' : address + 1
          < (source.toList ++ (written ++ [(source.toList ++ written)[address]])).length := by
        simp only [List.length_append, List.length_singleton] at hlt ⊢
        omega
      obtain ⟨v, hmoveEach, hv⟩ := ih hu (by simpa using hroom) hlt'
      refine ⟨v, ?_, ?_⟩
      · show Memory.moveEach source (address + 1) (written.length + 1) n
          (Memory.store written.length (Memory.fetch source address m).1
            (Memory.fetch source address m).2).2 = _
        rw [hfetch, hstore, ← hmoveEach, List.length_append, List.length_singleton]
      · rwa [copyBytes, List.getElem?_eq_getElem hlt, Option.toList_some, List.drop_succ_cons]

lemma Reached.move (h : Reached source produced written rest m) (hroom : n ≤ rest.length)
    (hlt : address < (source.toList ++ written).length) :
    ∃ t, Memory.move source address written.length n m = ((), t) ∧
      Reached source produced (copyBytes source.toList written address n) (rest.drop n) t := by
  unfold Memory.move
  split
  · exact h.moveAll hroom (by simpa)
  · exact h.moveEach hroom hlt

/-- However a copy falls, it comes to copying one byte at a time. -/
lemma Reached.copy (h : Reached source written.length written rest m) (hroom : n ≤ rest.length)
    (hlt : address < source.size + written.length) :
    ∃ t, Memory.copy source written.length address n m = (written.length + n, t) ∧
      Reached source written.length (copyBytes source.toList written address n) (rest.drop n)
        t := by
  obtain ⟨k, hk⟩ : ∃ k, k = min n (source.size - address) := ⟨_, rfl⟩
  have hlength : (copyBytes source.toList written address k).length = written.length + k :=
    length_copyBytes (by simpa using hlt)
  obtain ⟨t, hfirst, ht⟩ := @Reached.moveAll source written.length address k written rest m h
    (by omega) (by simp; omega)
  obtain ⟨u, hleft, hu⟩ := @Reached.move source written.length (address + k) (n - k) _ _ t ht
    (by rw [List.length_drop]; omega) (by rw [List.length_append, hlength]; simp; omega)
  rw [hlength] at hleft
  refine ⟨u, ?_, ?_⟩
  · show (written.length + n, (Memory.move source (address + min n (source.size - address))
      (written.length + min n (source.size - address)) (n - min n (source.size - address))
      (Memory.moveAll source address written.length (min n (source.size - address)) m).2).2) = _
    rw [← hk, hfirst, hleft]
  · rwa [← copyBytes_add, List.drop_drop, Nat.add_sub_cancel' (by omega)] at hu

end Reached

end Memory

structure Copied (source memory : Array UInt8) (produced address n : Nat)
    (result : Nat × Memory) : Prop where
  produced_eq : result.1 = produced + n
  size_eq : result.2.bytes.size = memory.size
  /-- In the segment followed by the target, each byte written is the one at its address. -/
  law : ∀ i < n, ∃ byte,
    (source ++ result.2.bytes)[source.size + produced + i]? = some byte ∧
    (source ++ result.2.bytes)[address + i]? = some byte
  frame : ∀ i, i < produced ∨ produced + n ≤ i → result.2.bytes[i]? = memory[i]?
  sound : Memory.Sound source.size produced result.2.accesses

lemma copied_of_reached {source memory : Array UInt8} {address n : Nat} {written rest : Bytes}
    {m : Memory} (hmemory : memory.toList = written ++ rest) (hroom : n ≤ rest.length)
    (hlt : address < source.toList.length + written.length)
    (h : Memory.Reached source written.length (copyBytes source.toList written address n)
      (rest.drop n) m) :
    Copied source memory written.length address n (written.length + n, m) := by
  have hlength := @length_copyBytes source.toList written address n hlt
  have hsize : m.bytes.size = memory.size := by
    rw [← Array.length_toList, ← Array.length_toList, h.bytes, hmemory]
    simp only [List.length_append, List.length_drop, hlength]
    omega
  have hspace {i : Nat} {byte : UInt8}
      (hi : (source.toList ++ copyBytes source.toList written address n)[i]? = some byte) :
      (source ++ m.bytes)[i]? = some byte := by
    rw [← Array.getElem?_toList, Array.toList_append, h.bytes, ← List.append_assoc,
      List.getElem?_append_left (List.getElem?_eq_some_iff.1 hi).1, hi]
  refine ⟨rfl, hsize, fun i hi => ?_, fun i hi => ?_, h.sound⟩
  · obtain ⟨byte, hwritten, hcopied⟩ := getElem?_copyBytes hlt hi
    exact ⟨byte, hspace hwritten, hspace hcopied⟩
  · rw [← Array.getElem?_toList, ← Array.getElem?_toList, h.bytes, hmemory]
    rcases hi with hbelow | habove
    · obtain ⟨more, hmore⟩ := prefix_copyBytes source.toList written address n
      rw [← hmore, List.append_assoc, List.getElem?_append_left hbelow,
        List.getElem?_append_left hbelow]
    · rw [List.getElem?_append_right (by omega), List.getElem?_append_right (by omega),
        hlength, List.getElem?_drop]
      congr 1
      omega

lemma lt_size_add_take {source memory : Array UInt8} {produced address n : Nat}
    (hroom : produced + n ≤ memory.size) (haddress : address < source.size + produced) :
    address < source.size + (memory.take produced).size := by
  have hsize : (memory.take produced).size = produced := by
    rw [Array.take_eq_extract, Array.size_extract, Nat.sub_zero, Nat.min_eq_left (by omega)]
  rwa [hsize]

/-- **Copies in place.** A copy in place writes just its bytes, each the one that its address
calls for, reads none that is not there yet, and leaves in the bytes produced what a copy to the
end of them appends. -/
theorem copy_in_place (source memory : Array UInt8) {produced address n : Nat}
    (hroom : produced + n ≤ memory.size) (haddress : address < source.size + produced) :
    Copied source memory produced address n
        (Memory.copy source produced address n ⟨memory, []⟩) ∧
      (Memory.copy source produced address n ⟨memory, []⟩).2.bytes.take (produced + n)
        = copy source (memory.take produced) ⟨address, lt_size_add_take hroom haddress⟩ n := by
  obtain ⟨written, rest, hmemory, rfl⟩ : ∃ written rest,
      memory.toList = written ++ rest ∧ written.length = produced := by
    refine ⟨memory.toList.take produced, memory.toList.drop produced,
      (List.take_append_drop _ _).symm, ?_⟩
    rw [List.length_take, Array.length_toList]
    omega
  have hrest : n ≤ rest.length := by
    rw [← Array.length_toList, hmemory, List.length_append] at hroom
    omega
  have hstart : Memory.Reached source written.length written rest ⟨memory, []⟩ :=
    ⟨hmemory, trivial, fun index hle hlt => absurd hlt (Nat.not_lt.2 hle)⟩
  obtain ⟨m, hcopy, hm⟩ := hstart.copy hrest haddress
  rw [hcopy]
  refine ⟨copied_of_reached hmemory hrest haddress hm, ?_⟩
  have hlength := @length_copyBytes source.toList written address n haddress
  rw [← Array.toList_inj, toList_copy]
  simp [hm.bytes, hmemory, ← hlength]

/-- A copy that begins with the last byte of the segment, runs on into the target and over the
bytes that it has written itself. -/
theorem copy_in_place_overlapping :
    (1 + 5 ≤ 7 ∧ 2 < 3 + 1) ∧
      Copied #[1, 2, 3] #[4, 0, 0, 0, 0, 0, 9] 1 2 5
        (Memory.copy #[1, 2, 3] 1 2 5 ⟨#[4, 0, 0, 0, 0, 0, 9], []⟩) ∧
      copy #[1, 2, 3] #[4] ⟨2, by decide⟩ 5 = #[4, 3, 4, 3, 4, 3] := by
  obtain ⟨hcopied, hbytes⟩ := copy_in_place #[1, 2, 3] #[4, 0, 0, 0, 0, 0, 9]
    (show 1 + 5 ≤ 7 by decide) (show 2 < 3 + 1 by decide)
  exact ⟨by decide, hcopied, hbytes.symm.trans (by decide +kernel)⟩

end Vcdiff.Target
