import Mathlib.Data.FinEnum
import Mathlib.Data.LawfulXor.Basic
import Mathlib.Data.Nat.ModEq
import Mathlib.Algebra.Order.Ring.Nat
import Mathlib.Algebra.Ring.Parity
import Mathlib.Data.Nat.Prime.Basic

/-!
# Reversible steps on machine words

Mixing functions are built from steps that lose no information: multiplying
by a word with an inverse, adding a constant, and folding a shifted copy of
the word into itself with xor. On a finite word type each is a bijection, and
so is their composition.
-/

namespace BenchHashmaps.Lib

open Function

/-- Folding `f x` into `x` with xor can be undone when `f` respects xor and
has no fixed point but zero. -/
theorem xor_map_injective {α : Type*} [XorOp α] [Zero α] [LawfulXor α] {f : α → α}
    (hxor : ∀ x y, f (x ^^^ y) = f x ^^^ f y) (hfix : ∀ x, f x = x → x = 0) :
    Injective fun x => x ^^^ f x := by
  intro x y h
  have hself : f (x ^^^ y) = x ^^^ y := by
    calc f (x ^^^ y) = f x ^^^ f y := hxor x y
      _ = x ^^^ (x ^^^ f x) ^^^ f y := by rw [xor_cancel_left]
      _ = x ^^^ (y ^^^ f y) ^^^ f y := by rw [show x ^^^ f x = y ^^^ f y from h]
      _ = x ^^^ y := by rw [xor_assoc, xor_cancel_right]
  have hzero := hfix _ hself
  calc x = x ^^^ y ^^^ y := (xor_cancel_right x y).symm
    _ = y := by rw [hzero, zero_xor]

theorem word_bijective {f : UInt64 → UInt64} (h : Injective f) : Bijective f :=
  have : Finite UInt64 := .of_injective UInt64.toBitVec fun _ _ => UInt64.toBitVec_inj.mp
  Finite.injective_iff_bijective.mp h

theorem mul_bijective {c d : UInt64} (h : c * d = 1) : Bijective fun x => x * c := by
  refine word_bijective fun x y hxy => ?_
  have hmul := congrArg (· * d) hxy
  simpa only [UInt64.mul_assoc, h, UInt64.mul_one] using hmul

theorem add_bijective (c : UInt64) : Bijective fun x => x + c :=
  word_bijective fun _ _ h => (UInt64.add_left_inj c).mp h

-- ---------------------------------------------------------------------------
-- Shifts
-- ---------------------------------------------------------------------------

theorem eq_zero_of_shiftRight_eq {x k : UInt64} (hk : 0 < k.toNat % 64) (h : x >>> k = x) :
    x = 0 := by
  have hnat := congrArg UInt64.toNat h
  rw [UInt64.toNat_shiftRight, Nat.shiftRight_eq_div_pow] at hnat
  by_contra hne
  have hpos : 0 < x.toNat := Nat.pos_of_ne_zero fun h0 => hne (UInt64.toNat_inj.mp h0)
  have hlt := Nat.div_lt_self hpos (Nat.one_lt_two_pow hk.ne')
  omega

/-- A left shift multiplies by an even power of two, so `2 ^ 64` divides a
word that is its own left shift. -/
theorem eq_zero_of_shiftLeft_eq {x k : UInt64} (hk : 0 < k.toNat % 64) (h : x <<< k = x) :
    x = 0 := by
  have hnat := congrArg UInt64.toNat h
  rw [UInt64.toNat_shiftLeft, Nat.shiftLeft_eq] at hnat
  obtain ⟨n, hn⟩ : ∃ n, k.toNat % 64 = n + 1 := ⟨k.toNat % 64 - 1, by omega⟩
  rw [hn] at hnat
  have hle : 1 ≤ 2 ^ (n + 1) := Nat.one_le_two_pow
  have hmod : x.toNat * 2 ^ (n + 1) ≡ x.toNat * 1 [MOD 2 ^ 64] := by
    rw [Nat.ModEq, hnat, Nat.mul_one, Nat.mod_eq_of_lt x.toNat_lt]
  have hdvd : 2 ^ 64 ∣ x.toNat * (2 ^ (n + 1) - 1) := by
    rw [Nat.mul_sub]
    exact (Nat.modEq_iff_dvd' (Nat.mul_le_mul_left _ hle)).mp hmod.symm
  have hodd : Nat.Coprime (2 ^ 64) (2 ^ (n + 1) - 1) := by
    refine Nat.Coprime.pow_left 64 (Nat.coprime_two_left.mpr ?_)
    exact Nat.Even.sub_odd hle (by simp [Nat.even_pow]) odd_one
  exact UInt64.toNat_inj.mp (Nat.eq_zero_of_dvd_of_lt (hodd.dvd_of_dvd_mul_right hdvd) x.toNat_lt)

theorem xor_shiftRight_bijective {k : UInt64} (hk : 0 < k.toNat % 64) :
    Bijective fun x : UInt64 => x ^^^ x >>> k :=
  word_bijective <| xor_map_injective (fun _ _ => UInt64.shiftRight_xor)
    fun _ => eq_zero_of_shiftRight_eq hk

theorem xor_shiftLeft_bijective {k : UInt64} (hk : 0 < k.toNat % 64) :
    Bijective fun x : UInt64 => x ^^^ x <<< k :=
  word_bijective <| xor_map_injective (fun _ _ => UInt64.shiftLeft_xor)
    fun _ => eq_zero_of_shiftLeft_eq hk

end BenchHashmaps.Lib
