import BenchHashmaps.Boost.Sizing
import Mathlib.Tactic.IntervalCases

/-!
# What the size policy and the load arithmetic guarantee

A size index `64 - level` stands for `2 ^ level` groups. The level chosen for
`n` slots is the smallest that has them. The rounding of `float` never makes a
table too small: when the capacity holds the size computed for a load, the
maximum load holds the load.
-/

namespace BenchHashmaps.Boost

open Lib

-- ---------------------------------------------------------------------------
-- Levels
-- ---------------------------------------------------------------------------

def levelFor (n : Nat) : Nat := if n / 15 + 1 ≤ 2 then 1 else (n / 15).log2 + 1

theorem one_le_levelFor (n : Nat) : 1 ≤ levelFor n := by
  rw [levelFor]
  split <;> omega

theorem lt_levelFor (n : Nat) : n < 15 * 2 ^ levelFor n := by
  rw [levelFor]
  split
  case isTrue h =>
    rw [pow_one]
    omega
  case isFalse h =>
    have : n / 15 < 2 ^ ((n / 15).log2 + 1) := Nat.lt_log2_self
    omega

theorem levelFor_le (hk : 1 ≤ k) (h : n < 15 * 2 ^ k) : levelFor n ≤ k := by
  rw [levelFor]
  split
  case isTrue => exact hk
  case isFalse hne =>
    have hlt : n / 15 < 2 ^ k := by omega
    exact (Nat.log2_lt (by omega)).mpr hlt

theorem levelFor_le_61 (n : UInt64) : levelFor n.toNat ≤ 61 :=
  levelFor_le (by decide) (n.toNat_lt.trans_le (by decide))

theorem toNat_sizeIndexFor (n : UInt64) : (sizeIndexFor n).toNat = 64 - levelFor n.toNat := by
  have hn := n.toNat_lt
  have hdiv : (n / 15 + 1).toNat = n.toNat / 15 + 1 := by
    rw [UInt64.toNat_add, UInt64.toNat_div, show (15 : UInt64).toNat = 15 from rfl,
      show (1 : UInt64).toNat = 1 from rfl]
    omega
  have hlevel := levelFor_le_61 n
  have hpos := one_le_levelFor n.toNat
  rw [sizeIndexFor, sizeIndex]
  rw [levelFor] at hlevel hpos ⊢
  by_cases h : n / 15 + 1 ≤ 2
  · have hle : n.toNat / 15 + 1 ≤ 2 := by
      rw [← hdiv]
      exact UInt64.le_iff_toNat_le.mp h
    rw [if_pos h, if_pos hle]
    rfl
  · have hle : ¬n.toNat / 15 + 1 ≤ 2 := by
      rw [← hdiv]
      exact fun hle => h (UInt64.le_iff_toNat_le.mpr hle)
    have hsub : n / 15 + 1 - 1 = n / 15 := by
      rw [UInt64.add_sub_cancel]
    have hne : ¬n / 15 = 0 := by
      intro hzero
      rw [hzero] at h
      exact h (by decide)
    rw [if_neg hle] at hlevel ⊢
    rw [if_neg h, hsub, bitWidth, if_neg hne, UInt64.toNat_div,
      show (15 : UInt64).toNat = 15 from rfl]
    have hwidth : (UInt64.ofNat ((n.toNat / 15).log2 + 1)).toNat = (n.toNat / 15).log2 + 1 := by
      rw [UInt64.toNat_ofNat']
      omega
    rw [UInt64.toNat_sub_of_le _ _
        (UInt64.le_iff_toNat_le.mpr (by rw [hwidth]; exact hlevel.trans (by decide))),
      hwidth]
    rfl

theorem toNat_groupsSize (hpos : 1 ≤ level) (hle : level ≤ 61) (h : si.toNat = 64 - level) :
    (groupsSize si).toNat = 2 ^ level := by
  have hsub : (64 - si).toNat = level := by
    rw [UInt64.toNat_sub_of_le _ _ (UInt64.le_iff_toNat_le.mpr (by rw [h]; exact Nat.sub_le 64 _)),
      h, show (64 : UInt64).toNat = 64 from rfl]
    omega
  have hlt : 2 ^ level < 2 ^ 64 := Nat.pow_lt_pow_right (by decide) (by omega)
  have hmod : level % 64 = level := Nat.mod_eq_of_lt (by omega)
  rw [groupsSize, UInt64.toNat_shiftLeft, hsub, hmod, show (1 : UInt64).toNat = 1 from rfl,
    Nat.shiftLeft_eq, Nat.one_mul, Nat.mod_eq_of_lt hlt]

theorem toNat_position (hash : UInt64) (hpos : 1 ≤ level) (h : si.toNat = 64 - level) :
    (position hash si).toNat = hash.toNat / 2 ^ (64 - level) := by
  rw [position, UInt64.toNat_shiftRight, h, Nat.mod_eq_of_lt (by omega), Nat.shiftRight_eq_div_pow]

theorem position_lt (hash : UInt64) (hpos : 1 ≤ level) (hle : level ≤ 61)
    (h : si.toNat = 64 - level) :
    (position hash si).toNat < 2 ^ level := by
  rw [toNat_position hash hpos h]
  refine Nat.div_lt_of_lt_mul ?_
  rw [← Nat.pow_add, Nat.sub_add_cancel (by omega)]
  exact hash.toNat_lt

/-- Slots in use of `2 ^ level` groups: all but the sentinel's. -/
def slots (level : Nat) : Nat := 15 * 2 ^ level - 1

theorem slots_succ (level : Nat) : slots level + 1 = 15 * 2 ^ level := by
  have := Nat.two_pow_pos level
  rw [slots]
  omega

theorem toNat_capacityOf (hle : level ≤ 60) (h : g.toNat = 2 ^ level) :
    (g * 15 - 1 : UInt64).toNat = slots level := by
  have hlt : 2 ^ level ≤ 2 ^ 60 := Nat.pow_le_pow_right (by decide) hle
  have hmul : (g * 15).toNat = 15 * 2 ^ level := by
    rw [UInt64.toNat_mul, h, show (15 : UInt64).toNat = 15 from rfl]
    omega
  have hone : 1 ≤ 2 ^ level := Nat.two_pow_pos level
  rw [UInt64.toNat_sub_of_le _ _
      (UInt64.le_iff_toNat_le.mpr (by rw [hmul]; exact hone.trans (by omega))),
    hmul]
  rfl

theorem toNat_capacityFor (h : levelFor n.toNat ≤ 60) :
    (capacityFor n).toNat = slots (levelFor n.toNat) :=
  toNat_capacityOf h
    (toNat_groupsSize (one_le_levelFor _) (levelFor_le_61 n) (toNat_sizeIndexFor n))

-- ---------------------------------------------------------------------------
-- Loads
-- ---------------------------------------------------------------------------

theorem binary32_exact (hn : n < 2 ^ 24) (e : ℤ) : binary32 ((n : ℕ) * 2 ^ e) = (n : ℕ) * 2 ^ e :=
  roundBits_exact hn e

theorem binary32_mono (h : x ≤ y) : binary32 x ≤ binary32 y := roundBits_mono (by decide) h

theorem le_sizeForLoad (hm : sizeForLoad x = .ok m) (ha : binary32 a = a) (hb : binary32 b = b)
    (hx : a ≤ x.toNat) (hab : b ≤ a / mlf) : b ≤ m.toNat := by
  rw [sizeForLoad] at hm
  split at hm
  case isTrue hlt =>
    cases hm
    rw [UInt64.toNat_ofNat', Nat.mod_eq_of_lt hlt]
    refine le_trans ?_ (Nat.le_ceil _)
    rw [← hb]
    refine binary32_mono (hab.trans (div_le_div_of_nonneg_right ?_ (by norm_num [mlf])))
    rw [← ha]
    exact binary32_mono hx
  case isFalse => cases hm

theorem sizeForLoad_le (ha : binary32 a = a) (hb : binary32 b = b) (hx : (x.toNat : ℚ) ≤ a)
    (hab : a / mlf ≤ b) (hn : b ≤ (n : ℕ)) (hlt : n < 2 ^ 64) :
    ∃ m, sizeForLoad x = .ok m ∧ m.toNat ≤ n := by
  have hceil : ⌈binary32 (binary32 x.toNat / mlf)⌉₊ ≤ n := by
    refine Nat.ceil_le.mpr (le_trans ?_ hn)
    rw [← hb]
    refine binary32_mono (le_trans (div_le_div_of_nonneg_right ?_ (by norm_num [mlf])) hab)
    rw [← ha]
    exact binary32_mono hx
  refine ⟨_, if_pos (hceil.trans_lt hlt), ?_⟩
  rwa [UInt64.toNat_ofNat', Nat.mod_eq_of_lt (hceil.trans_lt hlt)]

/-- `7 / 8` of the capacity, before it is rounded. -/
def loadOf (level : Nat) : ℚ := (105 : ℕ) * 2 ^ ((level : ℤ) - 3)

theorem binary32_loadOf (level : Nat) : binary32 (loadOf level) = loadOf level :=
  binary32_exact (by decide) _

theorem binary32_groups (level : Nat) :
    binary32 ((15 : ℕ) * 2 ^ (level : ℤ)) = (15 : ℕ) * 2 ^ (level : ℤ) :=
  binary32_exact (by decide) _

theorem loadOf_eq (level : Nat) : loadOf level = mlf * ((15 : ℕ) * 2 ^ (level : ℤ)) := by
  rw [loadOf, mlf, zpow_sub₀ two_ne_zero]
  norm_num
  ring

theorem cast_slots (level : Nat) : (slots level : ℚ) = (15 : ℕ) * 2 ^ (level : ℤ) - 1 := by
  have h : ((slots level + 1 : ℕ) : ℚ) = ((15 * 2 ^ level : ℕ) : ℚ) := congrArg _ (slots_succ level)
  push_cast at h
  rw [eq_sub_iff_add_eq, h, zpow_natCast]
  norm_num

theorem ulp_slots (level : Nat) : ulp 24 (slots level) = 2 ^ ((level : ℤ) - 20) := by
  have hlog : Nat.log 2 (slots level) = level + 3 := by
    have := Nat.two_pow_pos level
    rw [Nat.log_eq_iff (.inl (by omega)), slots, pow_add, pow_add, pow_add]
    omega
  rw [ulp, Int.log_natCast, hlog]
  congr 1
  push_cast
  ring

/-- Up to level 20 the capacity is exact. -/
theorem binary32_slots_exact (h : level ≤ 20) : binary32 (slots level) = slots level := by
  have hle : 2 ^ level ≤ 2 ^ 20 := Nat.pow_le_pow_right (by decide) h
  refine roundBits_natCast ?_
  rw [slots]
  omega

/-- From there on it lies at most half a unit below an even number of
units. -/
theorem binary32_slots_up (h : 21 ≤ level) :
    binary32 (slots level) = (15 : ℕ) * 2 ^ (level : ℤ) := by
  have hgroups : ((15 * 2 ^ 20 : ℕ) : ℚ) * ulp 24 (slots level) = (15 : ℕ) * 2 ^ (level : ℤ) := by
    have hcast : ((15 * 2 ^ 20 : ℕ) : ℚ) = (15 : ℕ) * 2 ^ (20 : ℤ) := by norm_num
    rw [ulp_slots, hcast, mul_assoc, ← zpow_add₀ two_ne_zero]
    congr 2
    ring
  have hunit : 2 ≤ ulp 24 (slots level) := by
    calc (2 : ℚ) = 2 ^ (1 : ℤ) := (zpow_one 2).symm
      _ ≤ 2 ^ ((level : ℤ) - 20) := zpow_le_zpow_right₀ one_le_two (by omega)
      _ = ulp 24 (slots level) := (ulp_slots level).symm
  have hpos : (0 : ℚ) < slots level := by
    have := slots_succ level
    have := Nat.two_pow_pos level
    exact Nat.cast_pos.mpr (by omega)
  have hone : (15 : ℕ) * 2 ^ (level : ℤ) = (slots level : ℚ) + 1 := by
    rw [cast_slots]
    ring
  rw [← hgroups]
  refine roundBits_of_lt_even (by decide) hpos ?_ ?_
  · rw [hgroups, hone]
    linarith
  · rw [hgroups, hone]
    linarith

theorem binary32_slots_le (level : Nat) : mlf * binary32 (slots level) ≤ loadOf level := by
  rw [loadOf_eq, ← binary32_groups]
  refine mul_le_mul_of_nonneg_left (binary32_mono ?_) (by norm_num [mlf])
  rw [cast_slots]
  linarith

theorem not_small_capacity {capacity : UInt64} (h : capacity.toNat = slots level) (hl : 2 ≤ level) :
    ¬capacity ≤ 2 * 15 - 1 := by
  rw [UInt64.le_iff_toNat_le, h]
  have : 2 ^ 2 ≤ 2 ^ level := Nat.pow_le_pow_right (by decide) hl
  have hval : (2 * 15 - 1 : UInt64).toNat = 29 := rfl
  rw [hval, slots]
  omega

theorem slots_lt (h : level ≤ 60) : slots level < 2 ^ 64 := by
  have : 2 ^ level ≤ 2 ^ 60 := Nat.pow_le_pow_right (by decide) h
  rw [slots]
  omega

theorem floor_load_le (level : Nat) : ⌊binary32 (mlf * binary32 (slots level))⌋₊ ≤ slots level := by
  have hle : binary32 (mlf * binary32 (slots level)) ≤ loadOf level := by
    rw [← binary32_loadOf]
    exact binary32_mono (binary32_slots_le level)
  have hone : 1 ≤ 2 ^ level := Nat.two_pow_pos level
  refine Nat.floor_le_of_le (hle.trans ?_)
  have hcast : (1 : ℚ) ≤ 2 ^ (level : ℤ) := by
    rw [zpow_natCast]
    exact_mod_cast hone
  rw [loadOf_eq, cast_slots, mlf]
  push_cast
  linarith

theorem initialMaxLoad_le {capacity : UInt64} (h : capacity.toNat = slots level)
    (hl : level ≤ 60) : (initialMaxLoad capacity).toNat ≤ slots level := by
  rw [initialMaxLoad]
  split
  case isTrue => exact h.le
  case isFalse =>
    have hlt := (floor_load_le level).trans_lt (slots_lt hl)
    rw [h, UInt64.toNat_ofNat', Nat.mod_eq_of_lt hlt]
    exact floor_load_le level

theorem initialMaxLoad_ge {capacity : UInt64} (h : capacity.toNat = slots level)
    (hlevel : 2 ≤ level) (hl : level ≤ 60) (hn : binary32 (n : ℕ) = n)
    (hle : (n : ℚ) ≤ mlf * binary32 (slots level)) : n ≤ (initialMaxLoad capacity).toNat := by
  have hlt := (floor_load_le level).trans_lt (slots_lt hl)
  rw [initialMaxLoad, if_neg (not_small_capacity h hlevel), h, UInt64.toNat_ofNat',
    Nat.mod_eq_of_lt hlt]
  refine Nat.le_floor ?_
  rw [← hn]
  exact binary32_mono hle

theorem cast_loadOf (h : 3 ≤ level) : ((105 * 2 ^ (level - 3) : ℕ) : ℚ) = loadOf level := by
  rw [loadOf, Nat.cast_mul, Nat.cast_pow, Nat.cast_ofNat, ← zpow_natCast, Nat.cast_sub h]
  rfl

/-- From level 3 on, seven eighths of the groups are a whole number of slots
and all of them but one can be used, whatever the rounding. -/
theorem loadOf_le_initialMaxLoad {capacity : UInt64} (h : capacity.toNat = slots level)
    (hlevel : 3 ≤ level) (hl : level ≤ 60) :
    105 * 2 ^ (level - 3) - 1 ≤ (initialMaxLoad capacity).toNat := by
  rcases Nat.lt_or_ge level 21 with hlt | hge
  · have hsmall : 2 ^ (level - 3) ≤ 2 ^ 17 := Nat.pow_le_pow_right (by decide) (by omega)
    have hone := Nat.two_pow_pos (level - 3)
    refine initialMaxLoad_ge h (by omega) hl (roundBits_natCast (by omega)) ?_
    rw [binary32_slots_exact (Nat.le_of_lt_succ hlt), cast_slots, Nat.cast_sub (by omega),
      cast_loadOf hlevel, loadOf_eq, mul_sub]
    exact sub_le_sub_left (by norm_num [mlf]) _
  · have hexact : binary32 ((105 * 2 ^ (level - 3) : ℕ) : ℚ) = (105 * 2 ^ (level - 3) : ℕ) := by
      rw [cast_loadOf hlevel, binary32_loadOf]
    refine (Nat.sub_le _ 1).trans (initialMaxLoad_ge h (by omega) hl hexact ?_)
    rw [binary32_slots_up hge, cast_loadOf hlevel, loadOf_eq]

/-- A capacity that holds the size computed for a load has a maximum load that
holds the load. -/
theorem le_initialMaxLoad {capacity : UInt64} (hm : sizeForLoad x = .ok m) (hpos : 1 ≤ level)
    (hl : level ≤ 60) (hle : m.toNat ≤ slots level) (h : capacity.toNat = slots level) :
    x.toNat ≤ (initialMaxLoad capacity).toNat := by
  by_contra hlt
  have hlt : (initialMaxLoad capacity).toNat < x.toNat := Nat.lt_of_not_le hlt
  have hm' : (m.toNat : ℚ) ≤ slots level := Nat.cast_le.mpr hle
  rcases Nat.lt_trichotomy level 2 with h1 | rfl | h3
  · -- every slot may be used
    have hone : level = 1 := by omega
    rw [hone] at h hm'
    have hcap : capacity = 29 := UInt64.toNat_inj.mp h
    rw [hcap, show initialMaxLoad 29 = 29 from rfl] at hlt
    have hx : ((30 : ℕ) : ℚ) ≤ x.toNat := Nat.cast_le.mpr hlt
    have h30 : binary32 ((30 : ℕ) : ℚ) = (30 : ℕ) := roundBits_natCast (by decide)
    have := le_sizeForLoad hm h30 h30 hx (by norm_num [mlf])
    have := this.trans hm'
    norm_num [slots] at this
  · have h51 : 51 ≤ (initialMaxLoad capacity).toNat := by
      refine initialMaxLoad_ge h le_rfl hl (roundBits_natCast (by decide)) ?_
      rw [binary32_slots_exact (by decide)]
      norm_num [slots, mlf]
    have hx : ((52 : ℕ) : ℚ) ≤ x.toNat := Nat.cast_le.mpr (by omega)
    have h52 : binary32 ((52 : ℕ) : ℚ) = (52 : ℕ) := roundBits_natCast (by decide)
    have h59 := binary32_exact (show 237 < 2 ^ 24 by decide) (-2)
    have := le_sizeForLoad hm h52 h59 hx (by norm_num [mlf])
    have := this.trans hm'
    norm_num [slots] at this
  · have hload := loadOf_le_initialMaxLoad h h3 hl
    have hx : loadOf level ≤ x.toNat := by
      rw [← cast_loadOf h3]
      exact Nat.cast_le.mpr (by omega)
    have := le_sizeForLoad hm (binary32_loadOf level) (binary32_groups level) hx
      (by rw [loadOf_eq, mul_div_cancel_left₀ _ (by norm_num [mlf])])
    have := this.trans hm'
    rw [cast_slots] at this
    linarith

theorem sizeForLoad_next (hx : x.toNat ≤ 16 * 2 ^ level) (hl : level ≤ 58) :
    ∃ m, sizeForLoad x = .ok m ∧ m.toNat ≤ 20 * 2 ^ level := by
  have hpow : 2 ^ level ≤ 2 ^ 58 := Nat.pow_le_pow_right (by decide) hl
  refine sizeForLoad_le (binary32_exact (show 16 < 2 ^ 24 by decide) level)
    (binary32_exact (show 20 < 2 ^ 24 by decide) level) ?_ ?_ ?_ (by omega)
  · rw [zpow_natCast]
    exact_mod_cast hx
  · have hpos : (0 : ℚ) < 2 ^ (level : ℤ) := zpow_pos two_pos _
    rw [mlf]
    push_cast
    linarith
  · rw [zpow_natCast]
    exact_mod_cast le_rfl

theorem one_le_sizeForLoad (hm : sizeForLoad x = .ok m) (hx : 1 ≤ x.toNat) : 1 ≤ m.toNat := by
  have hone : binary32 ((1 : ℕ) : ℚ) = (1 : ℕ) := roundBits_natCast (by decide)
  have := le_sizeForLoad hm hone hone (Nat.cast_le.mpr hx) (by norm_num [mlf])
  exact Nat.cast_le.mp this

/-- The capacity chosen for a load may be filled to that load, whatever `float`
has made of the numbers in between, as long as the capacity does not wrap. -/
theorem load_le_max_load (hm : sizeForLoad x = .ok m) (hlt : m.toNat < 15 * 2 ^ 60) :
    x ≤ initialMaxLoad (capacityFor m) ∧ initialMaxLoad (capacityFor m) ≤ capacityFor m := by
  have hl : levelFor m.toNat ≤ 60 := levelFor_le (by decide) hlt
  have hcap := toNat_capacityFor hl
  have hle := lt_levelFor m.toNat
  have hslots := slots_succ (levelFor m.toNat)
  constructor
  · rw [UInt64.le_iff_toNat_le]
    exact le_initialMaxLoad hm (one_le_levelFor _) hl (by omega) hcap
  · rw [UInt64.le_iff_toNat_le, hcap]
    exact initialMaxLoad_le hcap hl

/-- 2 ^ 25 + 1 is no `float`; it is rounded down before it is divided. -/
theorem odd_load_le_max_load : ∃ m, sizeForLoad 33554433 = .ok m ∧
    33554433 ≤ initialMaxLoad (capacityFor m) ∧ initialMaxLoad (capacityFor m) ≤ capacityFor m := by
  have hm : sizeForLoad 33554433 = .ok 38347924 := by decide +kernel
  exact ⟨_, hm, load_le_max_load hm (by decide)⟩

end BenchHashmaps.Boost
