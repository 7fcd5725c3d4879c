import BenchHashmaps.Base
import Mathlib.Tactic.Linarith
import Mathlib.Tactic.Ring

/-!
# The mixing of hashes

`mulx64` folds the 128-bit product of two words. The source has it four times:
on a 128-bit type, on an intrinsic for both words of a product or for the high
one, and by hand on the halves of the words, for compilers that have neither.
-/

namespace BenchHashmaps.Boost

/-- `mulx64` with `__uint128_t`. -/
def mulx64 (x y : UInt64) : UInt64 :=
  let r := x.toNat * y.toNat
  UInt64.ofNat r ^^^ UInt64.ofNat (r >>> 64)

/-- The intrinsic: the low word of the product, and the high one in `*hi`. -/
def umul128 (x y : UInt64) : UInt64 × UInt64 :=
  let r := x.toNat * y.toNat
  (UInt64.ofNat (r % 2 ^ 64), UInt64.ofNat (r / 2 ^ 64))

def umulh (x y : UInt64) : UInt64 := UInt64.ofNat (x.toNat * y.toNat / 2 ^ 64)

def mulx64Umul128 (x y : UInt64) : UInt64 :=
  let (r, r2) := umul128 x y
  r ^^^ r2

def mulx64Umulh (x y : UInt64) : UInt64 :=
  let r := x * y
  let r2 := umulh x y
  r ^^^ r2

def mulx64Portable (x y : UInt64) : UInt64 :=
  let x1 := x.toUInt32.toUInt64
  let x2 := x >>> 32
  let y1 := y.toUInt32.toUInt64
  let y2 := y >>> 32
  let r3 := x2 * y2
  let r2a := x1 * y2
  let r3 := r3 + (r2a >>> 32)
  let r2b := x2 * y1
  let r3 := r3 + (r2b >>> 32)
  let r1 := x1 * y1
  let r2 := (r1 >>> 32) + r2a.toUInt32.toUInt64 + r2b.toUInt32.toUInt64
  let r1 := (r2 <<< 32) + r1.toUInt32.toUInt64
  let r3 := r3 + (r2 >>> 32)
  r1 ^^^ r3

def mulx (x : UInt64) : UInt64 := mulx64 x 0x9E3779B97F4A7C15

-- ---------------------------------------------------------------------------
-- Halves of a word
-- ---------------------------------------------------------------------------

theorem toNat_low (x : UInt64) : x.toUInt32.toUInt64.toNat = x.toNat % 2 ^ 32 := by
  rw [UInt32.toNat_toUInt64, UInt64.toNat_toUInt32]

theorem toNat_high (x : UInt64) : (x >>> 32).toNat = x.toNat / 2 ^ 32 := by
  rw [UInt64.toNat_shiftRight, show (32 : UInt64).toNat % 64 = 32 from rfl,
    Nat.shiftRight_eq_div_pow]

theorem toNat_mul_half {a b : UInt64} (ha : a.toNat < 2 ^ 32) (hb : b.toNat < 2 ^ 32) :
    (a * b).toNat = a.toNat * b.toNat ∧ a.toNat * b.toNat ≤ (2 ^ 32 - 1) * (2 ^ 32 - 1) := by
  have hle : a.toNat * b.toNat ≤ (2 ^ 32 - 1) * (2 ^ 32 - 1) :=
    Nat.mul_le_mul (by omega) (by omega)
  refine ⟨?_, hle⟩
  rw [UInt64.toNat_mul, Nat.mod_eq_of_lt (by omega)]

theorem mul_halves (x y : UInt64) : x.toNat * y.toNat =
    (x >>> 32).toNat * (y >>> 32).toNat * 2 ^ 64 +
      (x.toUInt32.toUInt64.toNat * (y >>> 32).toNat +
        (x >>> 32).toNat * y.toUInt32.toUInt64.toNat) * 2 ^ 32 +
      x.toUInt32.toUInt64.toNat * y.toUInt32.toUInt64.toNat := by
  have hx := Nat.div_add_mod x.toNat (2 ^ 32)
  have hy := Nat.div_add_mod y.toNat (2 ^ 32)
  rw [← toNat_high, ← toNat_low] at hx hy
  rw [← hx, ← hy]
  ring

/-- Long multiplication; `c` carries into the high word. -/
theorem high_low {r p11 p12 p21 p22 c : Nat}
    (hr : r = p22 * 2 ^ 64 + (p12 + p21) * 2 ^ 32 + p11)
    (hc : c = p11 / 2 ^ 32 + p12 % 2 ^ 32 + p21 % 2 ^ 32) :
    r = (p22 + p12 / 2 ^ 32 + p21 / 2 ^ 32 + c / 2 ^ 32) * 2 ^ 64 +
      (c % 2 ^ 32 * 2 ^ 32 + p11 % 2 ^ 32) := by
  have h11 := Nat.div_add_mod p11 (2 ^ 32)
  have h12 := Nat.div_add_mod p12 (2 ^ 32)
  have h21 := Nat.div_add_mod p21 (2 ^ 32)
  have hc' := Nat.div_add_mod c (2 ^ 32)
  linarith

/-- No carry is lost in the products of the halves. -/
theorem mulx64Portable_eq (x y : UInt64) : mulx64Portable x y = mulx64 x y := by
  have hx1 : x.toUInt32.toUInt64.toNat < 2 ^ 32 := by rw [toNat_low]; omega
  have hx2 : (x >>> 32).toNat < 2 ^ 32 := by have := x.toNat_lt; rw [toNat_high]; omega
  have hy1 : y.toUInt32.toUInt64.toNat < 2 ^ 32 := by rw [toNat_low]; omega
  have hy2 : (y >>> 32).toNat < 2 ^ 32 := by have := y.toNat_lt; rw [toNat_high]; omega
  obtain ⟨h11, hle11⟩ := toNat_mul_half hx1 hy1
  obtain ⟨h12, hle12⟩ := toNat_mul_half hx1 hy2
  obtain ⟨h21, hle21⟩ := toNat_mul_half hx2 hy1
  obtain ⟨h22, hle22⟩ := toNat_mul_half hx2 hy2
  have hprod := mul_halves x y
  rw [← h11, ← h12, ← h21, ← h22] at hprod
  rw [← h11] at hle11
  rw [← h12] at hle12
  rw [← h21] at hle21
  rw [← h22] at hle22
  rw [mulx64Portable, mulx64]
  generalize x.toUInt32.toUInt64 * y.toUInt32.toUInt64 = r1 at *
  generalize x.toUInt32.toUInt64 * (y >>> 32) = r2a at *
  generalize x >>> 32 * y.toUInt32.toUInt64 = r2b at *
  generalize x >>> 32 * (y >>> 32) = r3 at *
  have hc : ((r1 >>> 32) + r2a.toUInt32.toUInt64 + r2b.toUInt32.toUInt64).toNat =
      r1.toNat / 2 ^ 32 + r2a.toNat % 2 ^ 32 + r2b.toNat % 2 ^ 32 := by
    simp only [UInt64.toNat_add, toNat_low, toNat_high]
    omega
  have hr := high_low hprod hc
  generalize (r1 >>> 32) + r2a.toUInt32.toUInt64 + r2b.toUInt32.toUInt64 = r2 at *
  have hlow : ((r2 <<< 32) + r1.toUInt32.toUInt64).toNat =
      r2.toNat % 2 ^ 32 * 2 ^ 32 + r1.toNat % 2 ^ 32 := by
    rw [UInt64.toNat_add, UInt64.toNat_shiftLeft, toNat_low,
      show (32 : UInt64).toNat % 64 = 32 from rfl, Nat.shiftLeft_eq]
    omega
  have hhigh : (r3 + (r2a >>> 32) + (r2b >>> 32) + (r2 >>> 32)).toNat =
      r3.toNat + r2a.toNat / 2 ^ 32 + r2b.toNat / 2 ^ 32 + r2.toNat / 2 ^ 32 := by
    simp only [UInt64.toNat_add, toNat_high]
    omega
  rw [← hhigh, ← hlow] at hr
  have hlt := ((r2 <<< 32) + r1.toUInt32.toUInt64).toNat_lt
  have hsum : x.toNat * y.toNat % 2 ^ 64 = ((r2 <<< 32) + r1.toUInt32.toUInt64).toNat ∧
      x.toNat * y.toNat / 2 ^ 64 = (r3 + (r2a >>> 32) + (r2b >>> 32) + (r2 >>> 32)).toNat := by
    omega
  rw [← UInt64.ofNat_mod_size, hsum.1, Nat.shiftRight_eq_div_pow, hsum.2, UInt64.ofNat_toNat,
    UInt64.ofNat_toNat]

/-- Which version a compiler takes makes no difference. -/
theorem mulx64_versions (x y : UInt64) :
    mulx64Umul128 x y = mulx64 x y ∧ mulx64Umulh x y = mulx64 x y ∧
      mulx64Portable x y = mulx64 x y := by
  have hlow : UInt64.ofNat (x.toNat * y.toNat % 2 ^ 64) = UInt64.ofNat (x.toNat * y.toNat) :=
    UInt64.ofNat_mod_size
  have hmul : x * y = UInt64.ofNat (x.toNat * y.toNat) := by
    rw [← UInt64.toNat_inj, UInt64.toNat_mul, UInt64.toNat_ofNat']
  refine ⟨?_, ?_, mulx64Portable_eq x y⟩
  · rw [mulx64Umul128, umul128, mulx64, hlow, Nat.shiftRight_eq_div_pow]
  · rw [mulx64Umulh, umulh, mulx64, hmul, Nat.shiftRight_eq_div_pow]

end BenchHashmaps.Boost
