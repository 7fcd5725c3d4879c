import BenchHashmaps.TwoWay
import BenchHashmaps.Lib.Words

/-!
# What hashing loses

`squirrel3` is a bijection on words, so the traits of the repository hash
distinct keys to distinct words, signed keys through their sign extension.
From a capacity of `2 ^ 32` on, the two masked halves of a hash are all of it,
and distinct keys have distinct pairs of candidate buckets.
-/

namespace BenchHashmaps

open Function
open Lib (mul_bijective add_bijective xor_shiftRight_bijective xor_shiftLeft_bijective)

-- ---------------------------------------------------------------------------
-- Traits of the tests
-- ---------------------------------------------------------------------------

structure PairValue where
  a : UInt32
  b : UInt32
  deriving DecidableEq, Repr

def Int32ToU32TableTrait : TableTrait Int32 UInt32 where
  hash key := squirrel3 key.toInt64.toUInt64

def Int64ToPairTableTrait : TableTrait Int64 PairValue where
  hash key := squirrel3 key.toUInt64

-- ---------------------------------------------------------------------------
-- The hash
-- ---------------------------------------------------------------------------

theorem squirrel3_bijective : Bijective squirrel3 := by
  have hmul1 : Bijective fun x : UInt64 => x * 0x9E3779B185EBCA87 :=
    mul_bijective (d := 0x0887493432BADB37) (by decide)
  have hadd : Bijective fun x : UInt64 => x + 0xC2B2AE3D27D4EB4F := add_bijective _
  have hmul3 : Bijective fun x : UInt64 => x * 0x27D4EB2F165667C5 :=
    mul_bijective (d := 0xC592C09FDFBA7F0D) (by decide)
  have hright : Bijective fun x : UInt64 => x ^^^ x >>> 8 := xor_shiftRight_bijective (by decide)
  have hleft : Bijective fun x : UInt64 => x ^^^ x <<< 8 := xor_shiftLeft_bijective (by decide)
  exact hright.comp <| hmul3.comp <| hleft.comp <| hadd.comp <| hright.comp hmul1

theorem toUInt64_injective : Injective Int64.toUInt64 := by
  rintro ⟨x⟩ ⟨y⟩ rfl
  rfl

theorem toInt64_injective : Injective Int32.toInt64 := by
  intro x y h
  have hint := congrArg Int64.toInt h
  rwa [Int32.toInt_toInt64, Int32.toInt_toInt64, Int32.toInt_inj] at hint

-- ---------------------------------------------------------------------------
-- Candidate buckets
-- ---------------------------------------------------------------------------

theorem and_pred_eq_mod (x : UInt64) {capacity : UInt64} (h : capacity.toNat = 2 ^ m) :
    (x &&& (capacity - 1)).toNat = x.toNat % 2 ^ m := by
  have hle : (1 : UInt64) ≤ capacity := UInt64.le_iff_toNat_le.mpr (h ▸ Nat.one_le_two_pow)
  rw [UInt64.toNat_and, UInt64.toNat_sub_of_le _ _ hle, h]
  exact Nat.and_two_pow_sub_one_eq_mod _ _

theorem index1_eq_mod (hash : UInt64) {capacity : UInt64} (h : capacity.toNat = 2 ^ m) :
    index1 hash capacity = hash.toNat % 2 ^ m :=
  and_pred_eq_mod hash h

theorem index2_eq_mod (hash : UInt64) {capacity : UInt64} (h : capacity.toNat = 2 ^ m) :
    index2 hash capacity = hash.toNat / 2 ^ 32 % 2 ^ m := by
  rw [index2, and_pred_eq_mod _ h, UInt64.toNat_shiftRight, Nat.shiftRight_eq_div_pow]
  rfl

theorem eq_of_indices {a b capacity : UInt64} (h2 : ∃ m, capacity.toNat = 2 ^ m)
    (hc : 2 ^ 32 ≤ capacity.toNat) (h1 : index1 a capacity = index1 b capacity)
    (h : index2 a capacity = index2 b capacity) : a = b := by
  obtain ⟨m, hm⟩ := h2
  rw [index1_eq_mod _ hm, index1_eq_mod _ hm] at h1
  rw [index2_eq_mod _ hm, index2_eq_mod _ hm] at h
  rw [hm] at hc
  have hdvd : 2 ^ 32 ∣ 2 ^ m :=
    Nat.pow_dvd_pow 2 ((Nat.pow_le_pow_iff_right Nat.one_lt_two).mp hc)
  have hlow : a.toNat % 2 ^ 32 = b.toNat % 2 ^ 32 := by
    rw [← Nat.mod_mod_of_dvd a.toNat hdvd, h1, Nat.mod_mod_of_dvd b.toNat hdvd]
  have hhigh : a.toNat / 2 ^ 32 = b.toNat / 2 ^ 32 := by
    have ha := a.toNat_lt
    have hb := b.toNat_lt
    rwa [Nat.mod_eq_of_lt (by omega), Nat.mod_eq_of_lt (by omega)] at h
  exact UInt64.toNat_inj.mp (by omega)

-- ---------------------------------------------------------------------------
-- The traits
-- ---------------------------------------------------------------------------

/-- Distinct keys have distinct hashes, and in a table with a power of two
of at least `2 ^ 32` buckets distinct ordered pairs of candidates. -/
structure Separates {Key Value : Type} (trait : TableTrait Key Value) : Prop where
  hash : Injective trait.hash
  candidates : ∀ capacity : UInt64, (∃ m, capacity.toNat = 2 ^ m) → 2 ^ 32 ≤ capacity.toNat →
    ∀ key key', key ≠ key' →
      (index1 (trait.hash key) capacity, index2 (trait.hash key) capacity) ≠
        (index1 (trait.hash key') capacity, index2 (trait.hash key') capacity)

theorem Separates.of_injective {Key Value : Type} {trait : TableTrait Key Value}
    (h : Injective trait.hash) : Separates trait where
  hash := h
  candidates _ h2 hc _ _ hne heq :=
    hne (h (eq_of_indices h2 hc (congrArg Prod.fst heq) (congrArg Prod.snd heq)))

/-- `squirrel3` is a bijection, and every trait of the repository, which
applies it to the key or to its sign extension, separates the keys. -/
theorem squirrel3_separates : Bijective squirrel3 ∧ Separates U64ToU64TableTrait ∧
    Separates Int64ToPairTableTrait ∧ Separates Int32ToU32TableTrait := by
  have hsquirrel := squirrel3_bijective.injective
  refine ⟨squirrel3_bijective, .of_injective hsquirrel, .of_injective ?_, .of_injective ?_⟩
  · exact hsquirrel.comp toUInt64_injective
  · exact hsquirrel.comp (toUInt64_injective.comp toInt64_injective)

end BenchHashmaps
