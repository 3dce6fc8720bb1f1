import Mathlib.Tactic.Common
import Vcdiff.CodeTable

/-!
Serialised code tables. Bytes that are read as a table make one whose modes fit the cache sizes that
it is read with, and a table whose modes fit them comes back from its serialised form. So the bytes
that are read as a table are just those that `Serialised` describes.
-/

namespace Vcdiff.CodeTable

variable {t : CodeTable} {columns : Vector UInt8 1536} {modeCount nearSize sameSize : Nat}
  {side : Fin 2} {opcode : Fin 256} {bytes : Bytes}

def half (e : Entry) (h : Fin 2) : Instruction := if h.val = 0 then e.1 else e.2

def UsesModes (t : CodeTable) (modeCount : Nat) : Prop :=
  ∀ e ∈ t.entries.toList, ∀ h : Fin 2, (half e h).kind = .copy →
    (half e h).mode.toNat < modeCount

instance (t : CodeTable) (modeCount : Nat) : Decidable (t.UsesModes modeCount) :=
  inferInstanceAs (Decidable (∀ e ∈ t.entries.toList, ∀ h : Fin 2, (half e h).kind = .copy →
    (half e h).mode.toNat < modeCount))

/-! ### Columns -/

/-- A column stands in the serialised form where the columns before it end. -/
lemma getElem?_column (t : CodeTable) (f : Entry → UInt8) (before after : Bytes)
    (opcode : Fin 256) :
    (before ++ (t.column f ++ after))[before.length + opcode.val]? = some (f t.entries[opcode]) := by
  rw [List.getElem?_append_right (by omega), Nat.add_sub_cancel_left,
    List.getElem?_append_left (by simp)]
  simp [column]

section Columns

variable (t : CodeTable) (h : Fin 2) (opcode : Fin 256)

lemma getElem?_kind :
    t.toBytes[h.val * 256 + opcode.val]? = some (half t.entries[opcode] h).kind.code := by
  match h with
  | 0 => simpa [toBytes, half] using getElem?_column t (·.1.kind.code) [] _ opcode
  | 1 =>
    simpa [toBytes, half] using
      getElem?_column t (·.2.kind.code) (t.column (·.1.kind.code)) _ opcode

lemma getElem?_size :
    t.toBytes[(2 + h.val) * 256 + opcode.val]? = some (half t.entries[opcode] h).size := by
  match h with
  | 0 =>
    simpa [toBytes, half] using getElem?_column t (·.1.size)
      (t.column (·.1.kind.code) ++ t.column (·.2.kind.code)) _ opcode
  | 1 =>
    simpa [toBytes, half] using getElem?_column t (·.2.size)
      (t.column (·.1.kind.code) ++ t.column (·.2.kind.code) ++ t.column (·.1.size)) _ opcode

lemma getElem?_mode :
    t.toBytes[(4 + h.val) * 256 + opcode.val]? = some (half t.entries[opcode] h).mode := by
  match h with
  | 0 =>
    simpa [toBytes, half] using getElem?_column t (·.1.mode)
      (t.column (·.1.kind.code) ++ t.column (·.2.kind.code) ++ t.column (·.1.size)
        ++ t.column (·.2.size)) _ opcode
  | 1 =>
    simpa [toBytes, half] using getElem?_column t (·.2.mode)
      (t.column (·.1.kind.code) ++ t.column (·.2.kind.code) ++ t.column (·.1.size)
        ++ t.column (·.2.size) ++ t.column (·.1.mode)) [] opcode

end Columns

/-! ### Reading a table back -/

lemma readHalf_toBytes (hmodes : t.UsesModes modeCount) (hsize : t.toBytes.toArray.size = 1536)
    (h : Fin 2) (opcode : Fin 256) :
    readHalf ⟨t.toBytes.toArray, hsize⟩ modeCount h opcode = .ok (half t.entries[opcode] h) := by
  have hget {n : Nat} {b : UInt8} (hn : n < 1536) (hb : t.toBytes[n]? = some b) :
      (⟨t.toBytes.toArray, hsize⟩ : Vector UInt8 1536)[n] = b := by
    obtain ⟨_, hb⟩ := List.getElem?_eq_some_iff.1 hb
    exact hb
  have hmode : ¬ ((half t.entries[opcode] h).kind = .copy ∧
      modeCount ≤ (half t.entries[opcode] h).mode.toNat) := by
    rintro ⟨hcopy, hle⟩
    have := hmodes t.entries[opcode] (by simp) h hcopy
    omega
  simp only [readHalf, hget _ (getElem?_kind t h opcode), hget _ (getElem?_size t h opcode),
    hget _ (getElem?_mode t h opcode), Instruction.Kind.ofCode?_code, if_neg hmode]

/-- **Serialised tables.** A table comes back from its serialised form, with the cache sizes that
it is read with. -/
theorem ofBytes_toBytes (hcount : 2 + nearSize + sameSize ≤ 256)
    (hmodes : t.UsesModes (2 + nearSize + sameSize)) :
    ofBytes t.toBytes nearSize sameSize = .ok { t with nearSize, sameSize } := by
  have hsize : t.toBytes.toArray.size = 1536 := by simp [byteSize]
  have hentry : readEntry ⟨t.toBytes.toArray, hsize⟩ (2 + nearSize + sameSize)
      = pure ∘ fun opcode : Fin 256 => t.entries[opcode] := by
    funext opcode
    rw [readEntry, readHalf_toBytes hmodes, readHalf_toBytes hmodes]
    rfl
  have hentries : Vector.ofFn (fun opcode : Fin 256 => t.entries[opcode]) = t.entries :=
    Vector.ofFn_getElem
  rw [ofBytes, dif_pos hsize]
  dsimp only
  rw [if_neg (by omega), hentry, Vector.ofFnM_pure_comp, hentries]
  rfl

lemma default_usesModes : default.UsesModes 9 := by decide +kernel

/-! ### Bytes that are no table -/

section Faults

variable {fault : Fault}

lemma kind_of_readHalf (h : readHalf columns modeCount side opcode = .error fault) :
    fault.kind = .invalidCodeTable := by
  unfold readHalf at h
  dsimp only at h
  split at h
  · cases h
    rfl
  · split at h <;> cases h
    rfl

lemma kind_of_readEntry (h : readEntry columns modeCount opcode = .error fault) :
    fault.kind = .invalidCodeTable := by
  rcases hfirst : readHalf columns modeCount 0 opcode with found | first
  · rw [readEntry, hfirst] at h
    cases h
    exact kind_of_readHalf hfirst
  · rcases hsecond : readHalf columns modeCount 1 opcode with found | second
    · rw [readEntry, hfirst, hsecond] at h
      cases h
      exact kind_of_readHalf hsecond
    · rw [readEntry, hfirst, hsecond] at h
      cases h

/-- A vector that cannot be made has an entry that cannot be. -/
lemma exists_of_ofFnM_error {α : Type} {n : Nat} {f : Fin n → Except Fault α}
    (h : Vector.ofFnM f = .error fault) : ∃ i, f i = .error fault := by
  induction n with
  | zero =>
    rw [Vector.ofFnM_zero] at h
    cases h
  | succ n ih =>
    rw [Vector.ofFnM_succ] at h
    rcases hfront : Vector.ofFnM fun i : Fin n => f i.castSucc with found | entries
    · rw [hfront] at h
      cases h
      obtain ⟨i, hi⟩ := ih hfront
      exact ⟨i.castSucc, hi⟩
    · rw [hfront] at h
      rcases hlast : f (Fin.last n) with found | entry
      · have h : (f (Fin.last n)).bind (fun entry => pure (entries.push entry)) = .error fault := h
        rw [hlast] at h
        cases h
        exact ⟨Fin.last n, hlast⟩
      · have h : (f (Fin.last n)).bind (fun entry => pure (entries.push entry)) = .error fault := h
        rw [hlast] at h
        cases h

lemma kind_of_ofBytes (h : ofBytes bytes nearSize sameSize = .error fault) :
    fault.kind = .invalidCodeTable := by
  unfold ofBytes at h
  split at h
  · dsimp only at h
    split at h
    · cases h
      rfl
    · rcases hentries : Vector.ofFnM (readEntry ⟨bytes.toArray, _⟩ (2 + nearSize + sameSize)) with
        found | entries
      · rw [hentries] at h
        cases h
        obtain ⟨opcode, hopcode⟩ := exists_of_ofFnM_error hentries
        exact kind_of_readEntry hopcode
      · rw [hentries] at h
        cases h
  · cases h
    rfl

end Faults

/-! ### Bytes that are a table -/

lemma usesMode_of_readHalf {i : Instruction}
    (h : readHalf columns modeCount side opcode = .ok i) (hcopy : i.kind = .copy) :
    i.mode.toNat < modeCount := by
  unfold readHalf at h
  dsimp only at h
  split at h
  · cases h
  · split at h
    · cases h
    · rename_i hmode
      cases h
      exact Nat.lt_of_not_le fun hle => hmode ⟨hcopy, hle⟩

lemma readHalf_of_readEntry {e : Entry} (h : readEntry columns modeCount opcode = .ok e)
    (side : Fin 2) : readHalf columns modeCount side opcode = .ok (half e side) := by
  rcases hfirst : readHalf columns modeCount 0 opcode with fault | first
  · rw [readEntry, hfirst] at h
    cases h
  · rcases hsecond : readHalf columns modeCount 1 opcode with fault | second
    · rw [readEntry, hfirst, hsecond] at h
      cases h
    · rw [readEntry, hfirst, hsecond] at h
      cases h
      match side with
      | 0 => exact hfirst
      | 1 => exact hsecond

lemma usesMode_of_readEntry {e : Entry} (h : readEntry columns modeCount opcode = .ok e)
    (side : Fin 2) (hcopy : (half e side).kind = .copy) : (half e side).mode.toNat < modeCount :=
  usesMode_of_readHalf (readHalf_of_readEntry h side) hcopy

/-- All entries of a vector that can be made can be. -/
lemma ofFnM_eq_ok {α : Type} {n : Nat} {f : Fin n → Except Fault α} {v : Vector α n}
    (h : Vector.ofFnM f = .ok v) (i : Fin n) : f i = .ok v[i] := by
  induction n with
  | zero => exact i.elim0
  | succ n ih =>
    rw [Vector.ofFnM_succ] at h
    rcases hfront : Vector.ofFnM fun i : Fin n => f i.castSucc with found | entries
    · rw [hfront] at h
      cases h
    · rw [hfront] at h
      have h : (f (Fin.last n)).bind (fun entry => pure (entries.push entry)) = .ok v := h
      rcases hlast : f (Fin.last n) with found | entry
      · rw [hlast] at h
        cases h
      · rw [hlast] at h
        cases h
        refine Fin.lastCases ?_ (fun i => ?_) i
        · simp [hlast]
        · simp [ih hfront i]

lemma exists_of_ofBytes (h : ofBytes bytes nearSize sameSize = .ok t) :
    ∃ (hsize : bytes.toArray.size = 1536) (entries : Vector Entry 256),
      Vector.ofFnM (readEntry ⟨bytes.toArray, hsize⟩ (2 + nearSize + sameSize)) = .ok entries ∧
        t = ⟨entries, nearSize, sameSize⟩ := by
  unfold ofBytes at h
  split at h
  · rename_i hsize
    dsimp only at h
    split at h
    · cases h
    · rcases hentries : Vector.ofFnM (readEntry ⟨bytes.toArray, hsize⟩ (2 + nearSize + sameSize))
        with fault | entries
      · rw [hentries] at h
        cases h
      · rw [hentries] at h
        cases h
        exact ⟨hsize, entries, hentries, rfl⟩
  · cases h

lemma sizes_of_ofBytes (h : ofBytes bytes nearSize sameSize = .ok t) :
    t.nearSize = nearSize ∧ t.sameSize = sameSize := by
  obtain ⟨-, entries, -, rfl⟩ := exists_of_ofBytes h
  exact ⟨rfl, rfl⟩

/-- **Modes.** A table that is read from bytes uses no mode that it has no cache for. -/
theorem usesModes_of_ofBytes (h : ofBytes bytes nearSize sameSize = .ok t) :
    t.UsesModes t.modeCount := by
  obtain ⟨hsize, entries, hentries, rfl⟩ := exists_of_ofBytes h
  intro e he side hcopy
  obtain ⟨opcode, hopcode, rfl⟩ := List.getElem_of_mem he
  have hlt : opcode < 256 := by simpa using hopcode
  exact usesMode_of_readEntry (ofFnM_eq_ok hentries ⟨opcode, hlt⟩) side hcopy

/-! ### Which bytes are a table -/

/-- The bytes are the serialised form of a table with these cache sizes: each of the 512
instructions is known, and each COPY is in a mode that there is for the sizes. -/
structure Serialised (bytes : Bytes) (nearSize sameSize : Nat) : Prop where
  length : bytes.length = byteSize
  sizes : nearSize + sameSize ≤ 254
  kinds : ∀ i < 512, ∀ code ∈ bytes[i]?, code ≤ 3
  modes : ∀ i < 512, bytes[i]? = some Instruction.Kind.copy.code →
    ∀ mode ∈ bytes[1024 + i]?, mode.toNat < 2 + nearSize + sameSize

/-- The tables that there are for a caller: the default one, and those that are read from bytes. -/
inductive Built : CodeTable → Prop
  | default : Built .default
  | read {bytes : Bytes} {nearSize sameSize : Nat} {t : CodeTable}
    (h : ofBytes bytes nearSize sameSize = .ok t) : Built t

/-- An index into the columns of the first and second instructions. -/
lemma exists_of_lt_512 {i : Nat} (h : i < 512) :
    ∃ (side : Fin 2) (opcode : Fin 256), i = side.val * 256 + opcode.val := by
  refine ⟨⟨i / 256, by omega⟩, ⟨i % 256, by omega⟩, ?_⟩
  dsimp only
  omega

lemma columns_of_readHalf {i : Instruction} (h : readHalf columns modeCount side opcode = .ok i) :
    columns[side.val * 256 + opcode.val]? = some i.kind.code ∧
      columns[(2 + side.val) * 256 + opcode.val]? = some i.size ∧
      columns[(4 + side.val) * 256 + opcode.val]? = some i.mode := by
  have := side.isLt
  have := opcode.isLt
  unfold readHalf at h
  dsimp only at h
  split at h
  · cases h
  · rename_i kind hkind
    split at h
    · cases h
    · cases h
      simp [Instruction.Kind.code_of_ofCode? hkind]

lemma exists_kind {code : UInt8} (h : code ≤ 3) : ∃ kind : Instruction.Kind, kind.code = code := by
  have hle : code.toNat ≤ 3 := h
  have hcode : code = 0 ∨ code = 1 ∨ code = 2 ∨ code = 3 := by
    simp only [← UInt8.toNat_inj]
    simp
    omega
  rcases hcode with rfl | rfl | rfl | rfl
  · exact ⟨.noop, rfl⟩
  · exact ⟨.add, rfl⟩
  · exact ⟨.run, rfl⟩
  · exact ⟨.copy, rfl⟩

lemma kind_of_code {kind kind' : Instruction.Kind} (h : kind.code = kind'.code) : kind = kind' := by
  have hkinds := congrArg Instruction.Kind.ofCode? h
  simpa using hkinds

lemma code_le (kind : Instruction.Kind) : kind.code ≤ 3 := by
  cases kind <;> decide

lemma exists_readHalf (hkind : ∀ code ∈ columns[side.val * 256 + opcode.val]?, code ≤ 3)
    (hmode : columns[side.val * 256 + opcode.val]? = some Instruction.Kind.copy.code →
      ∀ mode ∈ columns[(4 + side.val) * 256 + opcode.val]?, mode.toNat < modeCount) :
    ∃ i, readHalf columns modeCount side opcode = .ok i := by
  have := side.isLt
  have := opcode.isLt
  obtain ⟨code, hcode⟩ : ∃ code, columns[side.val * 256 + opcode.val] = code := ⟨_, rfl⟩
  rw [Vector.getElem?_eq_getElem (by omega), hcode] at hkind hmode
  rw [Vector.getElem?_eq_getElem (by omega)] at hmode
  obtain ⟨kind, rfl⟩ := exists_kind (hkind code rfl)
  refine ⟨⟨kind, columns[(2 + side.val) * 256 + opcode.val],
    columns[(4 + side.val) * 256 + opcode.val]⟩, ?_⟩
  rw [readHalf]
  simp only [hcode, Instruction.Kind.ofCode?_code]
  rw [if_neg]
  rintro ⟨rfl, hle⟩
  exact absurd (hmode rfl _ rfl) (by omega)

/-- A table that is read from bytes is written as these bytes. -/
lemma toBytes_of_ofBytes (h : ofBytes bytes nearSize sameSize = .ok t) : t.toBytes = bytes := by
  obtain ⟨hsize, entries, hentries, rfl⟩ := exists_of_ofBytes h
  have hcolumns (side : Fin 2) (opcode : Fin 256) := columns_of_readHalf
    (readHalf_of_readEntry (ofFnM_eq_ok hentries opcode) side)
  simp only [Vector.getElem?_mk, List.getElem?_toArray] at hcolumns
  refine List.ext_getElem? fun i => ?_
  rcases Nat.lt_or_ge i 1536 with hlt | hge
  · -- six columns: three for what an instruction says, each for the first and the second
    obtain ⟨side, opcode, hi⟩ := exists_of_lt_512 (i := i % 512) (by omega)
    obtain ⟨hkind, hlength, hmode⟩ := hcolumns side opcode
    have hplane : i = side.val * 256 + opcode.val ∨ i = (2 + side.val) * 256 + opcode.val ∨
        i = (4 + side.val) * 256 + opcode.val := by omega
    rcases hplane with rfl | rfl | rfl
    · rw [getElem?_kind, hkind]
    · rw [getElem?_size, hlength]
    · rw [getElem?_mode, hmode]
  · rw [List.getElem?_eq_none (by simpa [byteSize] using hge),
      List.getElem?_eq_none (by simpa [← hsize] using hge)]

lemma sizes_le_of_ofBytes (h : ofBytes bytes nearSize sameSize = .ok t) :
    nearSize + sameSize ≤ 254 := by
  unfold ofBytes at h
  split at h
  · dsimp only at h
    split at h
    · cases h
    · omega
  · cases h

lemma serialised_of_ofBytes (h : ofBytes bytes nearSize sameSize = .ok t) :
    Serialised bytes nearSize sameSize := by
  have hmodes := usesModes_of_ofBytes h
  obtain ⟨rfl, rfl⟩ := sizes_of_ofBytes h
  obtain rfl := toBytes_of_ofBytes h
  refine ⟨t.length_toBytes, sizes_le_of_ofBytes h, fun i hi code hcode => ?_,
    fun i hi hcode mode hmode => ?_⟩
  · obtain ⟨side, opcode, rfl⟩ := exists_of_lt_512 hi
    rw [getElem?_kind] at hcode
    cases hcode
    exact code_le _
  · obtain ⟨side, opcode, rfl⟩ := exists_of_lt_512 hi
    rw [getElem?_kind] at hcode
    have hindex : 1024 + (side.val * 256 + opcode.val) = (4 + side.val) * 256 + opcode.val := by
      omega
    rw [hindex, getElem?_mode] at hmode
    cases hmode
    exact hmodes _ (by simp) side (kind_of_code (Option.some.inj hcode))

lemma exists_readEntry (h : ∀ side, ∃ i, readHalf columns modeCount side opcode = .ok i) :
    ∃ e, readEntry columns modeCount opcode = .ok e := by
  obtain ⟨first, hfirst⟩ := h 0
  obtain ⟨second, hsecond⟩ := h 1
  refine ⟨(first, second), ?_⟩
  rw [readEntry, hfirst, hsecond]
  rfl

lemma exists_ofBytes (h : Serialised bytes nearSize sameSize) :
    ∃ t, ofBytes bytes nearSize sameSize = .ok t := by
  obtain ⟨hlength, hsizes, hkinds, hmodes⟩ := h
  have hsize : bytes.toArray.size = 1536 := by simpa [byteSize] using hlength
  have hentry (opcode : Fin 256) :
      ∃ e, readEntry ⟨bytes.toArray, hsize⟩ (2 + nearSize + sameSize) opcode = .ok e := by
    refine exists_readEntry fun side => exists_readHalf ?_ ?_
    · simpa using hkinds (side.val * 256 + opcode.val) (by omega)
    · have hindex : 1024 + (side.val * 256 + opcode.val) = (4 + side.val) * 256 + opcode.val := by
        omega
      simpa [hindex] using hmodes (side.val * 256 + opcode.val) (by omega)
  rw [ofBytes, dif_pos hsize]
  dsimp only
  rw [if_neg (by omega)]
  rcases hentries : Vector.ofFnM (readEntry ⟨bytes.toArray, hsize⟩ (2 + nearSize + sameSize)) with
    fault | entries
  · obtain ⟨opcode, hfault⟩ := exists_of_ofFnM_error hentries
    obtain ⟨e, he⟩ := hentry opcode
    rw [he] at hfault
    cases hfault
  · exact ⟨⟨entries, nearSize, sameSize⟩, rfl⟩

/-- **Serialised tables.** Bytes are read as a table just if they are the serialised form of one,
and then they are the form of this table. Each table that there is comes back from its bytes. -/
theorem ofBytes_iff_serialised (bytes : Bytes) (nearSize sameSize : Nat) :
    ((∃ t, ofBytes bytes nearSize sameSize = .ok t) ↔ Serialised bytes nearSize sameSize) ∧
      (∀ t, ofBytes bytes nearSize sameSize = .ok t →
        t.toBytes = bytes ∧ t.nearSize = nearSize ∧ t.sameSize = sameSize) ∧
      ∀ t, Built t → ofBytes t.toBytes t.nearSize t.sameSize = .ok t := by
  refine ⟨⟨?_, exists_ofBytes⟩, fun t ht => ?_, fun t ht => ?_⟩
  · rintro ⟨t, ht⟩
    exact serialised_of_ofBytes ht
  · exact ⟨toBytes_of_ofBytes ht, sizes_of_ofBytes ht⟩
  · cases ht with
    | default => exact ofBytes_toBytes (by decide) default_usesModes
    | read h =>
      have hsizes := sizes_le_of_ofBytes h
      have hmodes := usesModes_of_ofBytes h
      obtain ⟨rfl, rfl⟩ := sizes_of_ofBytes h
      exact ofBytes_toBytes (by omega) hmodes

end Vcdiff.CodeTable
