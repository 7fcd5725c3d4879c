import Mathlib.Data.Fintype.EquivFin
import Mathlib.Data.Nat.ModEq
import Mathlib.Data.Nat.Prime.Basic
import Mathlib.Tactic.Ring

/-!
# Triangular probing

Probing a power of two of places in steps of 1, 2, 3, .. visits every place
exactly once before it has made as many steps as there are places.
-/

namespace BenchHashmaps.Lib

/-- The place after `j` steps from `pos`. -/
def triangular (size pos j : Nat) : Nat := (pos + j * (j + 1) / 2) % size

theorem triangular_zero (h : pos < size) : triangular size pos 0 = pos := Nat.mod_eq_of_lt h

theorem triangular_succ (size pos j : Nat) :
    (triangular size pos j + (j + 1)) % size = triangular size pos (j + 1) := by
  have htwo : (j + 1) * (j + 1 + 1) = j * (j + 1) + 2 * (j + 1) := by ring
  have hhalf : (j + 1) * (j + 1 + 1) / 2 = j * (j + 1) / 2 + (j + 1) := by
    rw [htwo, Nat.add_mul_div_left _ _ (by decide)]
  rw [triangular, triangular, hhalf, Nat.mod_add_mod, Nat.add_assoc]

theorem triangular_lt (h : 0 < size) (pos j : Nat) : triangular size pos j < size := Nat.mod_lt _ h

/-- Two steps that meet differ by a factor of `2 ^ (k + 1)` in
`(j - i) * (i + j + 1)`, one factor of which is odd. -/
theorem triangular_injOn (hj : j < 2 ^ k) (hij : i ≤ j)
    (h : triangular (2 ^ k) pos i = triangular (2 ^ k) pos j) : i = j := by
  obtain ⟨d, rfl⟩ := Nat.exists_eq_add_of_le hij
  have hmod : i * (i + 1) / 2 ≡ (i + d) * (i + d + 1) / 2 [MOD 2 ^ k] :=
    Nat.ModEq.add_left_cancel' pos h
  have hsplit : (i + d) * (i + d + 1) = i * (i + 1) + d * (2 * i + d + 1) := by ring
  have hi := Nat.even_mul_succ_self i
  have hd : 2 ∣ d * (2 * i + d + 1) := by
    rw [← Nat.dvd_add_right hi.two_dvd, ← hsplit]
    exact (Nat.even_mul_succ_self (i + d)).two_dvd
  obtain ⟨q, hq⟩ := hd
  have hhalf : (i + d) * (i + d + 1) / 2 = i * (i + 1) / 2 + q := by
    rw [hsplit, hq, Nat.add_mul_div_left _ _ (by decide)]
  rw [hhalf] at hmod
  have hq0 : 2 ^ k ∣ q := by
    have := (Nat.modEq_iff_dvd' (Nat.le_add_right _ q)).mp hmod
    rwa [Nat.add_sub_cancel_left] at this
  have hpow : 2 ^ (k + 1) ∣ d * (2 * i + d + 1) := by
    rw [hq, pow_succ, Nat.mul_comm (2 ^ k)]
    exact Nat.mul_dvd_mul_left 2 hq0
  have hzero : d = 0 := by
    rcases Nat.even_or_odd d with hd | hd
    · -- the other factor is odd, so `2 ^ (k + 1)` divides `d`
      have hodd : Nat.Coprime (2 ^ (k + 1)) (2 * i + d + 1) := by
        refine Nat.Coprime.pow_left _ (Nat.coprime_two_left.mpr ?_)
        exact ((even_two_mul i).add hd).add_one
      have hdvd := hodd.dvd_of_dvd_mul_right hpow
      exact Nat.eq_zero_of_dvd_of_lt hdvd (by rw [pow_succ]; omega)
    · have hcop : Nat.Coprime (2 ^ (k + 1)) d :=
        Nat.Coprime.pow_left _ (Nat.coprime_two_left.mpr hd)
      have hdvd := hcop.dvd_of_dvd_mul_left hpow
      have := Nat.eq_zero_of_dvd_of_lt hdvd (by rw [pow_succ]; omega)
      omega
  rw [hzero, Nat.add_zero]

theorem triangular_inj (hi : i < 2 ^ k) (hj : j < 2 ^ k)
    (h : triangular (2 ^ k) pos i = triangular (2 ^ k) pos j) : i = j := by
  rcases Nat.le_total i j with hij | hij
  · exact triangular_injOn hj hij h
  · exact (triangular_injOn hi hij h.symm).symm

theorem exists_triangular (pos : Nat) (h : place < 2 ^ k) :
    ∃ j < 2 ^ k, triangular (2 ^ k) pos j = place := by
  let f : Fin (2 ^ k) → Fin (2 ^ k) :=
    fun j => ⟨triangular (2 ^ k) pos j, triangular_lt (Nat.two_pow_pos k) pos j⟩
  have hf : Function.Injective f :=
    fun i j heq => Fin.ext (triangular_inj i.isLt j.isLt (congrArg Fin.val heq))
  obtain ⟨j, hj⟩ := Finite.surjective_of_injective hf ⟨place, h⟩
  exact ⟨j, j.isLt, congrArg Fin.val hj⟩

end BenchHashmaps.Lib
