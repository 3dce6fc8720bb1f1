import Vcdiff.Proofs.History

/-!
An address cache in use. It is asked for addresses and cleared, in any order and from any
sections, and some of the addresses cannot be decoded. What the cache holds depends only on the
addresses that it has decoded since it was last cleared: each slot of the ring has the latest of
those whose number falls to it, each slot of the other half the latest with its residue, and a slot
that none falls to has zero.
-/

namespace Vcdiff.AddressCache

inductive Call where
  | clear
  | decode (here mode : Nat) (addresses : Cursor)
  deriving DecidableEq

/-- A cache, and the addresses that it has decoded since it was last cleared, in order of time. -/
structure Used where
  cache : AddressCache
  addresses : List Nat

def Used.call (u : Used) : Call → Used
  | .clear => ⟨u.cache.clear, []⟩
  | .decode here mode addresses =>
    match u.cache.decode here mode addresses with
    | (.ok address, cache, _) => ⟨cache, u.addresses ++ [address.val]⟩
    | (.error _, cache, _) => ⟨cache, u.addresses⟩

def afterCalls (nearSize sameSize : Nat) (calls : List Call) : Used :=
  calls.foldl Used.call ⟨empty nearSize sameSize, []⟩

/-- The latest of the addresses that fall to a slot by their number or by their value, or zero if
none does. -/
def Latest (falls : Nat → Nat → Prop) (addresses : List Nat) (value : Nat) : Prop :=
  (∃ t, addresses[t]? = some value ∧ falls t value ∧
    ∀ u later, t < u → addresses[u]? = some later → ¬ falls u later) ∨
  (value = 0 ∧ ∀ t address, addresses[t]? = some address → ¬ falls t address)

structure Recalls (c : AddressCache) (addresses : List Nat) : Prop where
  near : ∀ slot : Fin c.nearSize,
    Latest (fun t _ => t % c.nearSize = slot) addresses (c.near.get slot)
  same : ∀ (index : Nat) (h : index < 256 * c.sameSize),
    Latest (fun _ address => address % (256 * c.sameSize) = index) addresses c.same[index]

variable {falls : Nat → Nat → Prop} {addresses : List Nat} {c : AddressCache} {address value : Nat}

/-! ### The latest address -/

lemma latest_nil : Latest falls [] 0 := .inr ⟨rfl, fun t address h => by simp at h⟩

lemma latest_append_of_falls (h : falls addresses.length address) :
    Latest falls (addresses ++ [address]) address := by
  refine .inl ⟨addresses.length, by simp, h, fun u later hlt hlater => ?_⟩
  obtain ⟨hu, -⟩ := List.getElem?_eq_some_iff.1 hlater
  rw [List.length_append, List.length_singleton] at hu
  omega

/-- An address that falls to another slot leaves the latest of this one. -/
lemma Latest.append (h : Latest falls addresses value) (hother : ¬ falls addresses.length address) :
    Latest falls (addresses ++ [address]) value := by
  have hearlier {t found : Nat} (ht : (addresses ++ [address])[t]? = some found) :
      addresses[t]? = some found ∨ (t = addresses.length ∧ found = address) := by
    rcases Nat.lt_or_ge t addresses.length with hlt | hle
    · left
      rwa [List.getElem?_append_left hlt] at ht
    · right
      rw [List.getElem?_append_right hle, List.getElem?_singleton] at ht
      split at ht
      · exact ⟨by omega, by simpa using ht.symm⟩
      · cases ht
  rcases h with ⟨t, hvalue, hfalls, hlater⟩ | ⟨rfl, hnone⟩
  · left
    refine ⟨t, ?_, hfalls, fun u later hlt hu => ?_⟩
    · rw [List.getElem?_append_left (List.getElem?_eq_some_iff.1 hvalue).1, hvalue]
    · rcases hearlier hu with hu | ⟨rfl, rfl⟩
      · exact hlater u later hlt hu
      · exact hother
  · right
    refine ⟨rfl, fun t found ht => ?_⟩
    rcases hearlier ht with ht | ⟨rfl, rfl⟩
    · exact hnone t found ht
    · exact hother

lemma latest_near (nearSize slot : Nat) (history : History) :
    Latest (fun t _ => t % nearSize = slot) history.reverse (history.near nearSize slot) := by
  induction history with
  | nil => exact latest_nil
  | cons address earlier ih =>
    rw [List.reverse_cons, History.near]
    split
    · exact latest_append_of_falls (by simpa)
    · exact ih.append (by simpa)

lemma latest_same (sameSize index : Nat) (history : History) :
    Latest (fun _ address => address % (256 * sameSize) = index) history.reverse
      (history.same sameSize index) := by
  induction history with
  | nil => exact latest_nil
  | cons address earlier ih =>
    rw [List.reverse_cons, History.same]
    split
    · exact latest_append_of_falls (by simpa)
    · exact ih.append (by simpa)

/-! ### Calls -/

/-- A cache that mirrors the addresses, the newest first, holds the latest of them. -/
lemma recalls_of_mirrors (h : c.Mirrors addresses.reverse) : c.Recalls addresses where
  near slot := by
    have hlatest := latest_near c.nearSize slot addresses.reverse
    rwa [← h.near, List.reverse_reverse] at hlatest
  same index hindex := by
    have hlatest := latest_same c.sameSize index addresses.reverse
    rwa [← h.same index hindex, List.reverse_reverse] at hlatest

structure Used.Kept (nearSize sameSize : Nat) (u : Used) : Prop where
  nearSize_eq : u.cache.nearSize = nearSize
  sameSize_eq : u.cache.sameSize = sameSize
  mirrors : u.cache.Mirrors u.addresses.reverse

lemma Used.Kept.call {nearSize sameSize : Nat} {u : Used} (h : u.Kept nearSize sameSize)
    (call : Call) : (u.call call).Kept nearSize sameSize := by
  cases call with
  | clear => exact ⟨h.nearSize_eq, h.sameSize_eq, mirrors_clear u.cache⟩
  | decode here mode addresses =>
    obtain ⟨address, rest, hdecode⟩ | ⟨fault, rest, hdecode⟩ :=
      u.cache.decode_cases here mode addresses
    · rw [Used.call, hdecode]
      refine ⟨h.nearSize_eq, h.sameSize_eq, ?_⟩
      rw [List.reverse_append, List.reverse_singleton, List.singleton_append]
      exact h.mirrors.insert address.val
    · rw [Used.call, hdecode]
      exact h

lemma Used.Kept.calls {nearSize sameSize : Nat} {u : Used} (h : u.Kept nearSize sameSize)
    (calls : List Call) : (calls.foldl Used.call u).Kept nearSize sameSize := by
  induction calls generalizing u with
  | nil => exact h
  | cons call calls ih => exact ih (h.call call)

/-- **Recency.** Whatever a cache has been asked, each of its slots holds the latest address that
falls to it of those decoded since the cache was last cleared, or zero; and an address that cannot
be decoded leaves the cache as it is. -/
theorem recalls_afterCalls (nearSize sameSize : Nat) (calls : List Call) :
    let u := afterCalls nearSize sameSize calls
    u.cache.nearSize = nearSize ∧ u.cache.sameSize = sameSize ∧ u.cache.Recalls u.addresses ∧
      ∀ here mode addresses fault, (u.cache.decode here mode addresses).1 = .error fault →
        (u.cache.decode here mode addresses).2.1 = u.cache := by
  have hnew : Used.Kept nearSize sameSize ⟨empty nearSize sameSize, []⟩ :=
    ⟨rfl, rfl, mirrors_clear (empty nearSize sameSize)⟩
  have hkept : (afterCalls nearSize sameSize calls).Kept nearSize sameSize := hnew.calls calls
  refine ⟨hkept.nearSize_eq, hkept.sameSize_eq, recalls_of_mirrors hkept.mirrors,
    fun here mode addresses fault hfault => ?_⟩
  obtain ⟨address, rest, hdecode⟩ | ⟨found, rest, hdecode⟩ :=
    (afterCalls nearSize sameSize calls).cache.decode_cases here mode addresses
  · rw [hdecode] at hfault
    cases hfault
  · rw [hdecode]

/-- The ring of two goes round; addresses that cannot be decoded do not count, nor do those before
the cache was cleared. -/
example :
    let front (bytes : Bytes) : Cursor := .ofSection "addresses section" 0 bytes
    let u := afterCalls 2 1 [.decode 100 0 (front [9]), .clear, .decode 100 0 (front [10]),
      .decode 100 0 (front [20]), .decode 100 0 (front [0x81]), .decode 20 0 (front [25]),
      .decode 1000 0 (front [0x82, 0x0a])]
    u.addresses = [10, 20, 266] ∧ u.cache.near.toList = [266, 20] ∧ u.cache.same[10] = 266 ∧
      u.cache.same[9] = 0 := by
  decide +kernel

end Vcdiff.AddressCache
