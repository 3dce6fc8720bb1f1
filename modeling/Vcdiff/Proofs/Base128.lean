import Mathlib.Data.Nat.Digits.Lemmas
import Vcdiff.Proofs.Varint

/-!
Variable-length integers as digits. The bytes that write a number are its digits in base 128, and
the first of them that does not continue is the last. A scan compares every front of the number
with the limit, before it knows where the number ends; since further digits only make it larger,
that comes to comparing the number itself.
-/

namespace Vcdiff.Varint

/-- The number that the bytes write in base 128, the most significant digit first. -/
def value (bytes : Bytes) : Nat := Nat.ofDigits 128 (bytes.map group).reverse

variable {limit acc size n zeros offset stop : Nat} {leading bytes rest : Bytes} {last : UInt8}

/-! ### Digits -/

@[simp] lemma value_nil : value [] = 0 := rfl

lemma value_append (u v : Bytes) : value (u ++ v) = value u * 128 ^ v.length + value v := by
  simp only [value, List.map_append, List.reverse_append, Nat.ofDigits_append, List.length_reverse,
    List.length_map]
  rw [Nat.add_comm, Nat.mul_comm]

@[simp] lemma value_singleton (b : UInt8) : value [b] = group b := by
  simp [value, Nat.ofDigits_singleton]

lemma value_cons (b : UInt8) (bytes : Bytes) :
    value (b :: bytes) = group b * 128 ^ bytes.length + value bytes := by
  rw [← value_singleton, ← value_append, List.singleton_append]

lemma value_concat (bytes : Bytes) (b : UInt8) :
    value (bytes ++ [b]) = value bytes * 128 + group b := by
  rw [value_append, value_singleton, List.length_singleton, Nat.pow_one]

/-- Further digits make a number no smaller. -/
lemma value_le_value_append (u v : Bytes) : value u ≤ value (u ++ v) := by
  rw [value_append]
  exact Nat.le_add_right_of_le (Nat.le_mul_of_pos_right _ (Nat.pow_pos (by decide)))

/-- Groups of zero in front of a number count for nothing. -/
@[simp] lemma value_zeros_append (zeros : Nat) (bytes : Bytes) :
    value (List.replicate zeros 0x80 ++ bytes) = value bytes := by
  induction zeros with
  | zero => rfl
  | succ zeros ih =>
    rw [List.replicate_succ, List.cons_append, value_cons, ih]
    simp [group]

lemma group_ofNat (h : n < 256) : group (UInt8.ofNat n) = n % 128 := by
  rw [group, UInt8.toNat_ofNat_of_lt' h]

lemma continues_ofNat (h : n < 256) : continues (UInt8.ofNat n) = decide (128 ≤ n) := by
  rw [continues, UInt8.toNat_ofNat_of_lt' h]

lemma value_leadingGroups (n : Nat) : value (leadingGroups n) = n := by
  fun_induction leadingGroups n with
  | case1 => rfl
  | case2 n hn ih =>
    rw [value_concat, ih, group_ofNat (by omega)]
    omega

lemma continues_of_mem_leadingGroups (n : Nat) : ∀ b ∈ leadingGroups n, continues b := by
  fun_induction leadingGroups n with
  | case1 => simp
  | case2 n hn ih =>
    intro b hb
    rcases List.mem_append.1 hb with hb | hb
    · exact ih b hb
    · rw [List.mem_singleton.1 hb, continues_ofNat (by omega)]
      simp

/-- The shortest form writes its number. -/
lemma value_write (n : Nat) : value (write n) = n := by
  rw [write, value_concat, value_leadingGroups, group_ofNat (by omega)]
  omega

/-- Bytes all continue, or the first that does not ends a number. -/
lemma all_continue_or_ends (bytes : Bytes) :
    (∀ b ∈ bytes, continues b) ∨ ∃ leading last rest, bytes = leading ++ last :: rest ∧
      (∀ b ∈ leading, continues b) ∧ ¬ continues last := by
  induction bytes with
  | nil => exact .inl (by simp)
  | cons b bytes ih =>
    by_cases hb : continues b
    case neg => exact .inr ⟨[], b, bytes, rfl, by simp, hb⟩
    case pos =>
      rcases ih with hall | ⟨leading, last, rest, rfl, hleading, hlast⟩
      · exact .inl (List.forall_mem_cons.2 ⟨hb, hall⟩)
      · exact .inr ⟨b :: leading, last, rest, rfl, List.forall_mem_cons.2 ⟨hb, hleading⟩, hlast⟩

/-! ### Scans -/

/-- A scan goes through bytes that continue, or is stopped in them by the limit. -/
lemma scanFrom_of_continues (hacc : acc ≤ limit) (hleading : ∀ b ∈ leading, continues b) :
    scanFrom limit acc size (leading ++ rest) =
      if acc * 128 ^ leading.length + value leading ≤ limit then
        scanFrom limit (acc * 128 ^ leading.length + value leading) (size + leading.length) rest
      else .tooLarge := by
  induction leading generalizing acc size with
  | nil => simp [hacc]
  | cons b leading ih =>
    obtain ⟨hb, hleading⟩ := List.forall_mem_cons.1 hleading
    have hvalue : acc * 128 ^ (b :: leading).length + value (b :: leading)
        = (acc * 128 + group b) * 128 ^ leading.length + value leading := by
      rw [value_cons, List.length_cons, Nat.pow_succ]
      ring
    rw [hvalue, List.cons_append, scanFrom]
    by_cases hlarge : limit < acc * 128 + group b
    · have hpos : 0 < 128 ^ leading.length := Nat.pow_pos (by decide)
      have hgrow := Nat.le_mul_of_pos_right (acc * 128 + group b) hpos
      rw [if_pos hlarge, if_neg (by omega)]
    · rw [if_neg hlarge, if_pos hb, ih (by omega) hleading, List.length_cons, Nat.add_right_comm,
        Nat.add_assoc]

lemma scan_of_continues (hleading : ∀ b ∈ leading, continues b) (limit : Nat) (rest : Bytes) :
    scan limit (leading ++ rest) =
      if value leading ≤ limit then scanFrom limit (value leading) leading.length rest
      else .tooLarge := by
  rw [scan, scanFrom_of_continues (Nat.zero_le _) hleading]
  simp only [Nat.zero_mul, Nat.zero_add]

/-- A number that ends is read if it is within the limit. -/
theorem scan_of_ends (hleading : ∀ b ∈ leading, continues b) (hlast : ¬ continues last)
    (limit : Nat) (rest : Bytes) :
    scan limit (leading ++ last :: rest) =
      if value (leading ++ [last]) ≤ limit then
        .value (value (leading ++ [last])) (leading.length + 1) rest
      else .tooLarge := by
  rw [scan_of_continues hleading]
  have hgrow := value_le_value_append leading [last]
  by_cases hle : value leading ≤ limit
  · rw [if_pos hle, value_concat, scanFrom]
    by_cases hlarge : limit < value leading * 128 + group last
    · rw [if_pos hlarge, if_neg (by omega)]
    · rw [if_neg hlarge, if_neg hlast, if_pos (by omega)]
  · rw [if_neg hle, if_neg (by omega)]

/-- A number that goes on past the bytes is cut off, unless they make it too large already. -/
theorem scan_of_endless (hbytes : ∀ b ∈ bytes, continues b) (limit : Nat) :
    scan limit bytes = if value bytes ≤ limit then .cutOff else .tooLarge := by
  have hscan := scan_of_continues hbytes limit []
  rwa [List.append_nil, scanFrom_nil] at hscan

/-- The shortest form of a number is read back, also after groups of zero. -/
lemma scan_zeros_write (hn : n ≤ limit) (zeros : Nat) (rest : Bytes) :
    scan limit (List.replicate zeros 0x80 ++ (write n ++ rest))
      = .value n (zeros + (write n).length) rest := by
  have hleading : ∀ b ∈ List.replicate zeros (0x80 : UInt8) ++ leadingGroups (n / 128),
      continues b := by
    intro b hb
    rcases List.mem_append.1 hb with hb | hb
    · rw [List.eq_of_mem_replicate hb]
      rfl
    · exact continues_of_mem_leadingGroups _ b hb
  have hlast : ¬ continues (UInt8.ofNat (n % 128)) := by
    rw [continues_ofNat (by omega)]
    simp
    omega
  have hscan := scan_of_ends hleading hlast limit rest
  have hvalue : value (List.replicate zeros 0x80 ++ leadingGroups (n / 128)
      ++ [UInt8.ofNat (n % 128)]) = n := by
    rw [List.append_assoc, ← write, value_zeros_append, value_write]
  rw [hvalue, if_pos hn] at hscan
  simpa [write, Nat.add_assoc] using hscan

/-! ### Regions -/

lemma decode_of_scan : decode limit bytes offset stop =
    match scan limit (bytes.between offset stop) with
    | .value n size _ => .ok (some (n, size))
    | .tooLarge => .error (.varintTooLarge offset limit)
    | .cutOff => .ok none := rfl

/-- **Numbers.** A region of a buffer gives the number that its bytes write up to the first that
does not continue. If that is above the limit, it is refused; if there is no such byte, all the
bytes are compared with the limit, and within it the number is cut off. So groups of zero may stand
in front of a number, and its shortest form gives it back, whatever follows. -/
theorem decode_eq_value (hstop : stop ≤ bytes.length) (limit : Nat) :
    (∀ k (hk : k < stop), offset ≤ k → (∀ b ∈ bytes.between offset k, continues b) →
      ¬ continues bytes[k] → decode limit bytes offset stop =
        if value (bytes.between offset (k + 1)) ≤ limit then
          .ok (some (value (bytes.between offset (k + 1)), k - offset + 1))
        else .error (.varintTooLarge offset limit)) ∧
    ((∀ b ∈ bytes.between offset stop, continues b) → decode limit bytes offset stop =
      if value (bytes.between offset stop) ≤ limit then .ok none
      else .error (.varintTooLarge offset limit)) ∧
    ∀ n ≤ limit, ∀ zeros suffix,
      bytes.between offset stop = List.replicate zeros 0x80 ++ (write n ++ suffix) →
      decode limit bytes offset stop = .ok (some (n, zeros + (write n).length)) := by
  refine ⟨fun k hk hle hleading hlast => ?_, fun hall => ?_, fun n hn zeros suffix hregion => ?_⟩
  · have hsplit : bytes.between offset k ++ bytes[k] :: bytes.between (k + 1) stop
        = bytes.between offset stop := by
      rw [← Bytes.between_of_lt hk hstop, Bytes.between_append_between hle (by omega)]
    have hnumber : bytes.between offset k ++ [bytes[k]] = bytes.between offset (k + 1) := by
      rw [← Bytes.between_append_between hle (Nat.le_succ k),
        Bytes.between_of_lt (Nat.lt_succ_self k) (by omega), Bytes.between_self]
    have hlength : (bytes.between offset k).length = k - offset := by
      rw [Bytes.length_between]
      omega
    have hscan := scan_of_ends hleading hlast limit (bytes.between (k + 1) stop)
    rw [hsplit, hnumber, hlength] at hscan
    rw [decode_of_scan, hscan]
    split_ifs <;> rfl
  · rw [decode_of_scan, scan_of_endless hall]
    split_ifs <;> rfl
  · rw [decode_of_scan, hregion, scan_zeros_write hn]

/-- A group of zero and then 1000, with another number behind it: under a limit that is just wide
enough and one that is not, and cut before its last byte. -/
theorem decode_eq_value_padded :
    let bytes : Bytes := [0xff, 0x80, 0x87, 0x68, 0x05]
    (∀ b ∈ bytes.between 1 3, continues b) ∧ ¬ continues bytes[3] ∧
      decode 1000 bytes 1 5 = .ok (some (1000, 3)) ∧
      decode 999 bytes 1 5 = .error (.varintTooLarge 1 999) ∧
      decode 7 bytes 1 3 = .ok none ∧
      decode 6 bytes 1 3 = .error (.varintTooLarge 1 6) ∧
      bytes.between 1 5 = List.replicate 1 0x80 ++ (write 1000 ++ [0x05]) := by
  intro bytes
  have hleading : ∀ b ∈ bytes.between 1 3, continues b := by
    simp [bytes, Bytes.between, continues]
  have hlast : ¬ continues bytes[3] := by decide
  obtain ⟨hends, -, -⟩ := @decode_eq_value 1 5 bytes (by decide) 999
  have hread := hends 3 (by decide) (by decide) hleading hlast
  have hcut (limit : Nat) := (@decode_eq_value 1 3 bytes (by decide) limit).2.1 hleading
  have hregion : bytes.between 1 5 = List.replicate 1 0x80 ++ (write 1000 ++ [0x05]) := by
    simp [write, leadingGroups, bytes, Bytes.between]
  have hlength : (write 1000).length = 2 := by simp [write, leadingGroups]
  obtain ⟨-, -, hwritten⟩ := @decode_eq_value 1 5 bytes (by decide) 1000
  have hback := hwritten 1000 (by decide) 1 [0x05] hregion
  rw [hlength] at hback
  exact ⟨hleading, hlast, hback, hread.trans rfl, (hcut 7).trans rfl, (hcut 6).trans rfl, hregion⟩

end Vcdiff.Varint
