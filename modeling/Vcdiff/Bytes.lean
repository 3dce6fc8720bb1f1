/-!
Byte strings. Bytes that are read front to back are lists; bytes that are addressed by position
are arrays.
-/

namespace Vcdiff

abbrev Bytes := List UInt8

namespace Bytes

/-- The number that the bytes write in base 256, the most significant byte first. -/
def toNat (bytes : Bytes) : Nat := bytes.foldl (fun n b => n * 256 + b.toNat) 0

@[simp] theorem toNat_nil : toNat [] = 0 := rfl

@[simp] theorem toNat_append_singleton (bytes : Bytes) (b : UInt8) :
    toNat (bytes ++ [b]) = toNat bytes * 256 + b.toNat := by
  simp [toNat]

/-- The bytes from `start` up to but not including `stop`. -/
def between (bytes : Bytes) (start stop : Nat) : Bytes := (bytes.drop start).take (stop - start)

@[simp] theorem length_between (bytes : Bytes) (start stop : Nat) :
    (between bytes start stop).length = min (stop - start) (bytes.length - start) := by
  simp [between]

variable {bytes : Bytes} {i m n stop : Nat}

theorem between_self (bytes : Bytes) (i : Nat) : bytes.between i i = [] := by
  rw [between, Nat.sub_self, List.take_zero]

theorem between_of_lt (h : i < stop) (hstop : stop ≤ bytes.length) :
    bytes.between i stop = bytes[i] :: bytes.between (i + 1) stop := by
  have hsub : stop - i = stop - (i + 1) + 1 := by omega
  rw [between, between, List.drop_eq_getElem_cons (Nat.lt_of_lt_of_le h hstop), hsub,
    List.take_succ_cons]

theorem drop_between (bytes : Bytes) (i stop n : Nat) :
    (bytes.between i stop).drop n = bytes.between (i + n) stop := by
  rw [between, between, List.drop_take, List.drop_drop]
  congr 1
  omega

theorem take_between (h : i + n ≤ stop) :
    (bytes.between i stop).take n = bytes.between i (i + n) := by
  rw [between, between, List.take_take]
  congr 1
  omega

theorem between_append_between (hm : i ≤ m) (hstop : m ≤ stop) :
    bytes.between i m ++ bytes.between m stop = bytes.between i stop := by
  obtain ⟨n, rfl⟩ := Nat.exists_eq_add_of_le hm
  rw [← take_between hstop, ← drop_between, List.take_append_drop]

/-- Three sections that fill the bytes up to `stop`. -/
theorem sections_between {a b c : Nat} (h : i + a + b + c = stop) :
    (bytes.between i stop).take a = bytes.between i (i + a) ∧
      ((bytes.between i stop).drop a).take b = bytes.between (i + a) (i + a + b) ∧
      (bytes.between i stop).drop (a + b) = bytes.between (i + a + b) stop := by
  refine ⟨take_between (by omega), ?_, ?_⟩
  · rw [drop_between, take_between (by omega)]
  · rw [drop_between, Nat.add_assoc]

end Bytes

end Vcdiff
