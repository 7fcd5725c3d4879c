import Mathlib.Algebra.Order.Field.Rat
import Mathlib.Data.Int.Log
import Mathlib.Data.Rat.Floor
import Mathlib.Tactic.Linarith
import Mathlib.Tactic.NormNum
import Mathlib.Tactic.Ring

/-!
# Rounding to a binary significand

A non-negative rational rounded to the nearest number with `p` significant
bits, ties to even. The exponent is unbounded, so this is the arithmetic of a
binary floating-point format away from its overflow and underflow.

Two facts carry the bounds proved with it: rounding keeps the order, and a
number that fits into `p` bits is its own rounding.
-/

namespace BenchHashmaps.Lib

-- ---------------------------------------------------------------------------
-- To the nearest integer
-- ---------------------------------------------------------------------------

/-- The nearest integer, and of two the even one. -/
def roundEven (x : ℚ) : ℕ :=
  let q := ⌊x⌋₊
  if x - q < 1 / 2 then q
  else if 1 / 2 < x - q then q + 1
  else q + q % 2

theorem roundEven_natCast (n : ℕ) : roundEven n = n := by simp [roundEven]

theorem floor_le_roundEven (x : ℚ) : ⌊x⌋₊ ≤ roundEven x := by
  rw [roundEven]
  split
  · rfl
  · split <;> omega

theorem roundEven_le_floor_succ (x : ℚ) : roundEven x ≤ ⌊x⌋₊ + 1 := by
  rw [roundEven]
  split
  · omega
  · split <;> omega

theorem roundEven_mono (h : x ≤ y) : roundEven x ≤ roundEven y := by
  rcases (Nat.floor_mono h).eq_or_lt with heq | hlt
  · -- over one integer the fractions decide
    rw [roundEven, roundEven, heq]
    generalize ⌊y⌋₊ = q
    split_ifs <;> first | omega | (exfalso; linarith)
  · calc roundEven x ≤ ⌊x⌋₊ + 1 := roundEven_le_floor_succ x
      _ ≤ ⌊y⌋₊ := hlt
      _ ≤ roundEven y := floor_le_roundEven y

-- ---------------------------------------------------------------------------
-- To a significand
-- ---------------------------------------------------------------------------

/-- The unit in the last of `p` places of a positive number. -/
def ulp (p : ℕ) (x : ℚ) : ℚ := 2 ^ (Int.log 2 x - (p - 1))

def roundBits (p : ℕ) (x : ℚ) : ℚ :=
  if x ≤ 0 then 0 else roundEven (x / ulp p x) * ulp p x

theorem ulp_pos (p : ℕ) (x : ℚ) : 0 < ulp p x := by
  rw [ulp]
  exact zpow_pos two_pos _

@[simp] theorem roundBits_zero (p : ℕ) : roundBits p 0 = 0 := if_pos le_rfl

theorem roundBits_of_pos (h : 0 < x) : roundBits p x = roundEven (x / ulp p x) * ulp p x :=
  if_neg (not_le.mpr h)

theorem zpow_log_eq (hp : 0 < p) (x : ℚ) :
    (2 : ℚ) ^ Int.log 2 x = ((2 ^ (p - 1) : ℕ) : ℚ) * ulp p x := by
  obtain ⟨p, rfl⟩ := Nat.exists_eq_succ_of_ne_zero hp.ne'
  rw [ulp, Nat.succ_sub_one, Nat.cast_pow, Nat.cast_ofNat, ← zpow_natCast,
    ← zpow_add₀ (two_ne_zero)]
  congr 1
  push_cast
  ring

theorem zpow_log_succ_eq (hp : 0 < p) (x : ℚ) :
    (2 : ℚ) ^ (Int.log 2 x + 1) = ((2 ^ p : ℕ) : ℚ) * ulp p x := by
  obtain ⟨p, rfl⟩ := Nat.exists_eq_succ_of_ne_zero hp.ne'
  rw [zpow_add_one₀ two_ne_zero, zpow_log_eq hp x, Nat.succ_sub_one, pow_succ]
  push_cast
  ring

theorem zpow_log_le_roundBits (hp : 0 < p) (h : 0 < x) : (2 : ℚ) ^ Int.log 2 x ≤ roundBits p x := by
  have hle : ((2 ^ (p - 1) : ℕ) : ℚ) ≤ x / ulp p x := by
    rw [le_div_iff₀ (ulp_pos p x), ← zpow_log_eq hp]
    exact_mod_cast Int.zpow_log_le_self one_lt_two h
  rw [roundBits_of_pos h, zpow_log_eq hp]
  refine mul_le_mul_of_nonneg_right (Nat.cast_le.mpr ?_) (ulp_pos p x).le
  calc 2 ^ (p - 1) = roundEven ((2 ^ (p - 1) : ℕ) : ℚ) := (roundEven_natCast _).symm
    _ ≤ roundEven (x / ulp p x) := roundEven_mono hle

theorem roundBits_le_zpow_log_succ (hp : 0 < p) (h : 0 < x) :
    roundBits p x ≤ (2 : ℚ) ^ (Int.log 2 x + 1) := by
  have hle : x / ulp p x ≤ ((2 ^ p : ℕ) : ℚ) := by
    rw [div_le_iff₀ (ulp_pos p x), ← zpow_log_succ_eq hp]
    exact_mod_cast (Int.lt_zpow_succ_log_self one_lt_two x).le
  rw [roundBits_of_pos h, zpow_log_succ_eq hp]
  refine mul_le_mul_of_nonneg_right (Nat.cast_le.mpr ?_) (ulp_pos p x).le
  calc roundEven (x / ulp p x) ≤ roundEven ((2 ^ p : ℕ) : ℚ) := roundEven_mono hle
    _ = 2 ^ p := roundEven_natCast _

theorem roundBits_nonneg (p : ℕ) (x : ℚ) : 0 ≤ roundBits p x := by
  rw [roundBits]
  split
  · rfl
  · exact mul_nonneg (Nat.cast_nonneg _) (ulp_pos p x).le

/-- Inside one binade the units are the same; between two lies a power of
two. -/
theorem roundBits_mono (hp : 0 < p) (h : x ≤ y) : roundBits p x ≤ roundBits p y := by
  rcases le_or_gt x 0 with hx | hx
  · rw [roundBits, if_pos hx]
    exact roundBits_nonneg p y
  have hy := hx.trans_le h
  rcases (Int.log_mono_right hx h : Int.log 2 x ≤ Int.log 2 y).eq_or_lt with heq | hlt
  · have hulp : ulp p x = ulp p y := by rw [ulp, ulp, heq]
    rw [roundBits_of_pos hx, roundBits_of_pos hy, hulp]
    refine mul_le_mul_of_nonneg_right (Nat.cast_le.mpr (roundEven_mono ?_)) (ulp_pos p y).le
    exact div_le_div_of_nonneg_right h (ulp_pos p y).le
  · calc roundBits p x ≤ (2 : ℚ) ^ (Int.log 2 x + 1) := roundBits_le_zpow_log_succ hp hx
      _ ≤ (2 : ℚ) ^ Int.log 2 y := zpow_le_zpow_right₀ one_le_two (Int.add_one_le_of_lt hlt)
      _ ≤ roundBits p y := zpow_log_le_roundBits hp hy

theorem roundBits_of_units (h : x = (n : ℕ) * ulp p x) : roundBits p x = x := by
  rcases le_or_gt x 0 with hx | hx
  · rw [roundBits, if_pos hx]
    rw [h] at hx ⊢
    exact (le_antisymm hx (mul_nonneg (Nat.cast_nonneg _) (ulp_pos p _).le)).symm
  · have hdiv : x / ulp p x = n := by
      rw [div_eq_iff (ulp_pos p x).ne']
      exact h
    rw [roundBits_of_pos hx, hdiv, roundEven_natCast]
    exact h.symm

theorem roundBits_exact {n : ℕ} (hn : n < 2 ^ p) (e : ℤ) :
    roundBits p ((n : ℚ) * 2 ^ e) = (n : ℚ) * 2 ^ e := by
  rcases Nat.eq_zero_or_pos n with rfl | hpos
  · simp
  have hpow : (0 : ℚ) < 2 ^ e := zpow_pos two_pos e
  have hx : (0 : ℚ) < (n : ℚ) * 2 ^ e := mul_pos (Nat.cast_pos.mpr hpos) hpow
  have hlog : Int.log 2 ((n : ℚ) * 2 ^ e) - ((p : ℤ) - 1) ≤ e := by
    rw [sub_le_iff_le_add]
    have hlt : (n : ℚ) * 2 ^ e < (2 : ℚ) ^ ((p : ℤ) + e) := by
      rw [zpow_add₀ two_ne_zero, zpow_natCast]
      exact mul_lt_mul_of_pos_right (by exact_mod_cast hn) hpow
    have := (Int.lt_zpow_iff_log_lt (b := 2) one_lt_two hx).mp hlt
    omega
  obtain ⟨k, hk⟩ := Int.le.dest hlog
  have hsplit : (2 : ℚ) ^ e = 2 ^ k * ulp p ((n : ℚ) * 2 ^ e) := by
    rw [ulp, ← zpow_natCast (2 : ℚ) k, ← zpow_add₀ two_ne_zero, add_comm, hk]
  have hunits : (n : ℚ) * 2 ^ e = ((n * 2 ^ k : ℕ) : ℚ) * ulp p ((n : ℚ) * 2 ^ e) := by
    rw [Nat.cast_mul, Nat.cast_pow, Nat.cast_ofNat, mul_assoc, ← hsplit]
  exact roundBits_of_units hunits

theorem roundBits_natCast {n : ℕ} (hn : n < 2 ^ p) : roundBits p (n : ℚ) = n := by
  simpa using roundBits_exact hn 0

theorem roundBits_of_lt_even {n : ℕ} (hn : n % 2 = 0) (hx : 0 < x)
    (hlt : x < (n : ℚ) * ulp p x) (hle : (n : ℚ) * ulp p x ≤ x + ulp p x / 2) :
    roundBits p x = (n : ℚ) * ulp p x := by
  have hulp := ulp_pos p x
  have hlt : x / ulp p x < n := (div_lt_iff₀ hulp).mpr hlt
  have hle : (n : ℚ) - 1 / 2 ≤ x / ulp p x := by
    rw [le_div_iff₀ hulp]
    linarith
  have hpos : 0 < n := Nat.cast_pos.mp ((div_pos hx hulp).trans hlt)
  have hfloor : ⌊x / ulp p x⌋₊ = n - 1 := by
    rw [Nat.floor_eq_iff (div_pos hx hulp).le, Nat.cast_sub hpos, Nat.cast_one]
    constructor <;> linarith
  have hround : roundEven (x / ulp p x) = n := by
    rw [roundEven, hfloor, Nat.cast_sub hpos, Nat.cast_one, if_neg (by linarith)]
    split
    · omega
    · omega
  rw [roundBits_of_pos hx, hround]

end BenchHashmaps.Lib
