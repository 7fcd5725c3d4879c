import Mathlib.Data.List.Range
import Mathlib.Data.Nat.Bitwise

/-!
# Walking the set bits of a mask

The loop that takes the lowest set bit of a mask, works on it and clears it
with `mask &= mask - 1` visits the set bits in ascending order.
-/

namespace BenchHashmaps.Lib

/-- `std::countr_zero`, for a mask that is not zero. -/
def countrZero (mask : Nat) : Nat := ((List.range mask).find? mask.testBit).getD 0

/-- The bits taken by `while (mask) { countr_zero(mask); mask &= mask - 1; }`.
Every round makes the mask smaller, so there are at most `mask` of them. -/
def setBits (mask : Nat) : List Nat := go mask mask
where
  go : Nat → Nat → List Nat
  | 0, _ => []
  | fuel + 1, mask => if mask = 0 then [] else countrZero mask :: go fuel (mask &&& (mask - 1))

-- ---------------------------------------------------------------------------
-- The lowest set bit
-- ---------------------------------------------------------------------------

theorem countrZero_spec {mask : Nat} (h : mask ≠ 0) :
    mask.testBit (countrZero mask) ∧ ∀ j < countrZero mask, mask.testBit j = false := by
  obtain ⟨i, hi⟩ := Nat.exists_testBit_of_ne_zero h
  have hlt : i < mask := Nat.lt_of_lt_of_le Nat.lt_two_pow_self (Nat.ge_two_pow_of_testBit hi)
  rw [countrZero]
  cases hfind : (List.range mask).find? mask.testBit with
  | none =>
    have := List.find?_eq_none.mp hfind i (List.mem_range.mpr hlt)
    exact absurd hi this
  | some c =>
    obtain ⟨hc, -, hmin⟩ := List.find?_range_eq_some.mp hfind
    exact ⟨hc, fun j hj => by simpa using hmin j hj⟩

theorem testBit_countrZero (h : mask ≠ 0) : mask.testBit (countrZero mask) := (countrZero_spec h).1

/-- With the lowest set bit split off, `mask` and `mask - 1` agree above it
and share no bit from it down. -/
theorem testBit_clear_lowest (h : mask ≠ 0) (j : Nat) :
    (mask &&& (mask - 1)).testBit j = (mask.testBit j && j != countrZero mask) := by
  obtain ⟨hset, hmin⟩ := countrZero_spec h
  generalize countrZero mask = c at hset hmin
  have hlow : mask % 2 ^ (c + 1) = 2 ^ c := by
    refine Nat.eq_of_testBit_eq fun i => ?_
    rw [Nat.testBit_mod_two_pow, Nat.testBit_two_pow]
    rcases Nat.lt_trichotomy i c with hi | rfl | hi
    · rw [hmin i hi, Bool.and_false, eq_comm, decide_eq_false_iff_not]
      exact (Nat.ne_of_lt hi).symm
    · simpa using hset
    · rw [decide_eq_false (by omega), Bool.false_and, eq_comm, decide_eq_false_iff_not]
      exact Nat.ne_of_lt hi
  have hpos : 0 < 2 ^ c := Nat.two_pow_pos c
  have hpow : 2 ^ (c + 1) = 2 ^ c + 2 ^ c := by rw [pow_succ]; omega
  have hmask := Nat.div_add_mod mask (2 ^ (c + 1))
  rw [hlow] at hmask
  generalize mask / 2 ^ (c + 1) = q at hmask
  have hpred : mask - 1 = 2 ^ (c + 1) * q + (2 ^ c - 1) := by omega
  rw [Nat.testBit_and, hpred, ← hmask, Nat.testBit_two_pow_mul_add _ (by omega),
    Nat.testBit_two_pow_mul_add _ (by omega), Nat.testBit_two_pow, Nat.testBit_two_pow_sub_one]
  by_cases hj : j < c + 1
  · rw [if_pos hj, if_pos hj]
    rcases Nat.lt_or_ge j c with hjc | hjc
    · simp [(Nat.ne_of_lt hjc).symm]
    · simp [Nat.le_antisymm (Nat.le_of_lt_succ hj) hjc]
  · rw [if_neg hj, if_neg hj]
    have hjc : j ≠ c := by omega
    simp [hjc]

-- ---------------------------------------------------------------------------
-- The walk
-- ---------------------------------------------------------------------------

theorem mem_setBits_go (hle : mask ≤ fuel) : i ∈ setBits.go fuel mask ↔ mask.testBit i := by
  induction fuel generalizing mask with
  | zero =>
    rw [Nat.le_zero.mp hle, setBits.go]
    simp
  | succ fuel ih =>
    rw [setBits.go]
    split
    case isTrue h => simp [h]
    case isFalse h =>
      have hlt : mask &&& (mask - 1) ≤ fuel := by
        have := Nat.and_le_right (n := mask) (m := mask - 1)
        omega
      rw [List.mem_cons, ih hlt, testBit_clear_lowest h]
      by_cases hi : i = countrZero mask
      · rw [hi]
        simp [testBit_countrZero h]
      · simp [hi]

theorem mem_setBits : i ∈ setBits mask ↔ mask.testBit i := mem_setBits_go le_rfl

theorem setBits_go_sorted (hle : mask ≤ fuel) : (setBits.go fuel mask).Pairwise (· < ·) := by
  induction fuel generalizing mask with
  | zero => exact .nil
  | succ fuel ih =>
    rw [setBits.go]
    split
    case isTrue h => exact .nil
    case isFalse h =>
      have hlt : mask &&& (mask - 1) ≤ fuel := by
        have := Nat.and_le_right (n := mask) (m := mask - 1)
        omega
      refine .cons (fun j hj => ?_) (ih hlt)
      rw [mem_setBits_go hlt, testBit_clear_lowest h] at hj
      obtain ⟨-, hmin⟩ := countrZero_spec h
      simp only [Bool.and_eq_true, bne_iff_ne] at hj
      refine Nat.lt_of_le_of_ne (Nat.le_of_not_lt fun hjc => ?_) (Ne.symm hj.2)
      rw [hmin j hjc] at hj
      exact Bool.false_ne_true hj.1

theorem setBits_sorted (mask : Nat) : (setBits mask).Pairwise (· < ·) := setBits_go_sorted le_rfl

theorem setBits_nodup (mask : Nat) : (setBits mask).Nodup := (setBits_sorted mask).imp Nat.ne_of_lt

end BenchHashmaps.Lib
