import Mathlib.Data.Nat.Bitwise
import Mathlib.Data.UInt

/-!
# Groups of fifteen slots

`group15` of `boost_unordered.hpp`: one metadata byte for each of fifteen
slots and an overflow byte. A slot's byte is 0 when the slot is available, 1
for the sentinel and otherwise the reduced hash of its element.

The source has the group in two layouts, sixteen bytes and two interleaved
words. The class carries the operations, the laws read every operation through
the logical bytes, and the table above them knows only the laws.
-/

namespace BenchHashmaps.Boost

def N : Nat := 15

/-- The tables behind `reduced_hash` and `match_word` leave a byte alone,
except that they move 0 and 1 out of the way. -/
def reducedHash (hash : UInt64) : UInt8 :=
  let byte := hash.toUInt8
  if byte < 2 then byte + 8 else byte

def available : UInt8 := 0
def sentinel : UInt8 := 1

/-- The operations of `group15`. Masks are `int` in the source. -/
class Group15 (γ : Type) where
  /-- All zeros, which `table_arrays` writes with `memset`. -/
  initialized : γ
  /-- `dummy_group_type`. -/
  dummyGroup : γ
  set : γ → (pos : Nat) → (hash : UInt64) → γ
  setSentinel : γ → γ
  reset : γ → (pos : Nat) → γ
  matchHash : γ → (hash : UInt64) → UInt32
  isNotOverflowed : γ → (hash : UInt64) → Bool
  markOverflow : γ → (hash : UInt64) → γ
  maybeCausedOverflow : γ → (pos : Nat) → Bool
  matchAvailable : γ → UInt32
  matchOccupied : γ → UInt32

export Group15 (initialized dummyGroup setSentinel matchHash isNotOverflowed markOverflow
  maybeCausedOverflow matchAvailable matchOccupied)

/-- The logical layout: a byte for each slot and eight overflow bits. -/
class Group15.Layout (γ : Type) [Group15 γ] where
  byte : γ → Nat → UInt8
  overflowed : γ → Nat → Bool
  byte_initialized : byte initialized i = available
  overflowed_initialized : overflowed initialized j = false
  byte_dummyGroup : i < N → byte dummyGroup i = if i = N - 1 then sentinel else available
  overflowed_dummyGroup : j < 8 → overflowed dummyGroup j = false
  byte_set {hash : UInt64} : pos < N → i < N →
    byte (set g pos hash) i = if i = pos then reducedHash hash else byte g i
  overflowed_set {hash : UInt64} : pos < N → j < 8 →
    overflowed (set g pos hash) j = overflowed g j
  byte_setSentinel : i < N → byte (setSentinel g) i = if i = N - 1 then sentinel else byte g i
  overflowed_setSentinel : j < 8 → overflowed (setSentinel g) j = overflowed g j
  byte_reset : pos < N → i < N → byte (reset g pos) i = if i = pos then available else byte g i
  overflowed_reset : pos < N → j < 8 → overflowed (reset g pos) j = overflowed g j
  byte_markOverflow {hash : UInt64} : i < N → byte (markOverflow g hash) i = byte g i
  overflowed_markOverflow {hash : UInt64} : j < 8 →
    overflowed (markOverflow g hash) j = (overflowed g j || j == hash.toNat % 8)
  isNotOverflowed_eq {hash : UInt64} :
    isNotOverflowed g hash = !overflowed g (hash.toNat % 8)
  maybeCausedOverflow_eq : pos < N →
    maybeCausedOverflow g pos = overflowed g ((byte g pos).toNat % 8)
  testBit_matchHash {hash : UInt64} : (matchHash g hash).toNat.testBit i =
    (decide (i < N) && byte g i == reducedHash hash)
  testBit_matchAvailable : (matchAvailable g).toNat.testBit i =
    (decide (i < N) && byte g i == available)
  testBit_matchOccupied : (matchOccupied g).toNat.testBit i =
    (decide (i < N) && byte g i != available)

-- ---------------------------------------------------------------------------
-- The reduced hash
-- ---------------------------------------------------------------------------

theorem two_le_reducedHash (hash : UInt64) : 2 ≤ (reducedHash hash).toNat := by
  rw [reducedHash]
  split
  case isTrue h =>
    have hlt : hash.toUInt8.toNat < 2 := UInt8.lt_iff_toNat_lt.mp h
    rw [UInt8.toNat_add, show (8 : UInt8).toNat = 8 from rfl]
    omega
  case isFalse h => exact Nat.le_of_not_lt fun hlt => h (UInt8.lt_iff_toNat_lt.mpr hlt)

theorem reducedHash_ne_available (hash : UInt64) : reducedHash hash ≠ available := by
  intro h
  have := two_le_reducedHash hash
  rw [h] at this
  exact absurd this (by decide)

theorem reducedHash_ne_sentinel (hash : UInt64) : reducedHash hash ≠ sentinel := by
  intro h
  have := two_le_reducedHash hash
  rw [h] at this
  exact absurd this (by decide)

-- ---------------------------------------------------------------------------
-- Sixteen bytes
-- ---------------------------------------------------------------------------

/-- The layout behind SSE2 (and Neon): the slots' bytes in order, the overflow
byte last. -/
structure Sse2 where
  m : Vector UInt8 16
  deriving DecidableEq, Repr

namespace Sse2

def overflow (g : Sse2) : UInt8 := g.m[15]

/-- `_mm_movemask_epi8` of `_mm_cmpeq_epi8` with sixteen times the same byte. -/
def movemask (g : Sse2) (byte : UInt8) : UInt32 :=
  UInt32.ofNat (Nat.ofBits fun i : Fin 16 => g.m[i] == byte)

def matchAvailable (g : Sse2) : UInt32 := g.movemask available &&& 0x7FFF

def isNotOverflowed (g : Sse2) (hash : UInt64) : Bool :=
  g.overflow &&& (1 <<< (hash % 8).toUInt8) == 0

instance group15 : Group15 Sse2 where
  initialized := ⟨.replicate 16 available⟩
  dummyGroup := ⟨(Vector.replicate 16 available).setIfInBounds (N - 1) sentinel⟩
  set g pos hash := ⟨g.m.setIfInBounds pos (reducedHash hash)⟩
  setSentinel g := ⟨g.m.setIfInBounds (N - 1) sentinel⟩
  reset g pos := ⟨g.m.setIfInBounds pos available⟩
  matchHash g hash := g.movemask (reducedHash hash) &&& 0x7FFF
  isNotOverflowed := isNotOverflowed
  markOverflow g hash := ⟨g.m.setIfInBounds N (g.overflow ||| (1 <<< (hash % 8).toUInt8))⟩
  maybeCausedOverflow g pos := !g.isNotOverflowed (g.m[pos]?.getD 0).toUInt64
  matchAvailable := matchAvailable
  matchOccupied g := ~~~g.matchAvailable &&& 0x7FFF

theorem testBit_movemask (g : Sse2) (b : UInt8) (i : Nat) :
    (g.movemask b &&& 0x7FFF).toNat.testBit i = (decide (i < N) && g.m[i]?.getD 0 == b) := by
  have hlt : Nat.ofBits (fun i : Fin 16 => g.m[i] == b) < 2 ^ 32 :=
    (Nat.ofBits_lt_two_pow _).trans (by decide)
  rw [movemask, UInt32.toNat_and, UInt32.toNat_ofNat', Nat.mod_eq_of_lt hlt, Nat.testBit_and,
    show (0x7FFF : UInt32).toNat = 2 ^ 15 - 1 from rfl, Nat.testBit_two_pow_sub_one, Bool.and_comm]
  by_cases hi : i < 15
  · rw [Nat.testBit_ofBits_lt _ _ (by omega)]
    simp [N, hi, Vector.getElem?_eq_getElem (show i < 16 by omega)]
  · simp [N, hi]

theorem toNat_one_shiftLeft (hash : UInt64) :
    (1 <<< (hash % 8).toUInt8 : UInt8).toNat = 2 ^ (hash.toNat % 8) := by
  have hmod : hash.toNat % 8 < 8 := Nat.mod_lt _ (by decide)
  have hpow : 2 ^ (hash.toNat % 8) < 256 := Nat.pow_lt_pow_right (by decide) hmod
  rw [UInt8.toNat_shiftLeft, UInt64.toNat_toUInt8, UInt64.toNat_mod]
  simp [Nat.shiftLeft_eq, Nat.mod_eq_of_lt hpow]

theorem isNotOverflowed_eq (g : Sse2) (hash : UInt64) :
    g.isNotOverflowed hash = !g.overflow.toNat.testBit (hash.toNat % 8) := by
  rw [isNotOverflowed, Bool.eq_iff_iff, beq_iff_eq, ← UInt8.toNat_inj, UInt8.toNat_and,
    toNat_one_shiftLeft, Nat.and_two_pow]
  cases g.overflow.toNat.testBit (hash.toNat % 8) <;> simp

theorem overflow_setIfInBounds (g : Sse2) (h : pos < N) (b : UInt8) :
    (⟨g.m.setIfInBounds pos b⟩ : Sse2).overflow = g.overflow := by
  have hne : pos ≠ 15 := Nat.ne_of_lt h
  simp [overflow, hne]

theorem getD_setIfInBounds (m : Vector UInt8 16) (hi : i < N) (b : UInt8) :
    (m.setIfInBounds pos b)[i]?.getD 0 = if i = pos then b else m[i]?.getD 0 := by
  have hi : i < 16 := Nat.lt_succ_of_lt hi
  rw [Vector.getElem?_eq_getElem hi, Vector.getElem?_eq_getElem hi, Option.getD_some,
    Option.getD_some, Vector.getElem_setIfInBounds]
  simp [eq_comm]

theorem testBit_matchAvailable (g : Sse2) (i : Nat) :
    g.matchAvailable.toNat.testBit i = (decide (i < N) && g.m[i]?.getD 0 == available) :=
  testBit_movemask g available i

theorem testBit_matchOccupied (g : Sse2) (i : Nat) :
    (~~~g.matchAvailable &&& 0x7FFF).toNat.testBit i =
      (decide (i < N) && g.m[i]?.getD 0 != available) := by
  have hnot : (~~~g.matchAvailable).toNat = 2 ^ 32 - (g.matchAvailable.toNat + 1) := by
    rw [UInt32.toNat_not, Nat.sub_sub, Nat.add_comm 1]
    rfl
  rw [UInt32.toNat_and, hnot, Nat.testBit_and,
    Nat.testBit_two_pow_sub_succ (UInt32.toNat_lt _), testBit_matchAvailable,
    show (0x7FFF : UInt32).toNat = 2 ^ 15 - 1 from rfl, Nat.testBit_two_pow_sub_one]
  by_cases hi : i < 15
  · have hi' : i < 32 := by omega
    simp [N, hi, hi', bne]
  · simp [N, hi]

theorem getD_replicate (i : Nat) : (Vector.replicate 16 available)[i]?.getD 0 = available := by
  rw [Vector.getElem?_replicate]
  split <;> rfl

instance layout : Group15.Layout Sse2 where
  byte g i := g.m[i]?.getD 0
  overflowed g j := g.overflow.toNat.testBit j
  byte_initialized := getD_replicate _
  overflowed_initialized := Nat.zero_testBit _
  byte_dummyGroup hi := by
    rw [dummyGroup, group15]
    simp only
    rw [getD_setIfInBounds _ hi, getD_replicate]
  overflowed_dummyGroup _ := Nat.zero_testBit _
  byte_set _ hi := getD_setIfInBounds _ hi _
  overflowed_set h _ := by
    rw [Group15.set, group15]
    simp only [overflow_setIfInBounds _ h]
  byte_setSentinel hi := getD_setIfInBounds _ hi _
  overflowed_setSentinel _ := by
    rw [setSentinel, group15]
    simp only [overflow_setIfInBounds _ (show N - 1 < N by decide)]
  byte_reset _ hi := getD_setIfInBounds _ hi _
  overflowed_reset h _ := by
    rw [Group15.reset, group15]
    simp only [overflow_setIfInBounds _ h]
  byte_markOverflow hi := by
    rw [markOverflow, group15]
    simp only
    rw [getD_setIfInBounds _ hi, if_neg (Nat.ne_of_lt hi)]
  overflowed_markOverflow {_ g _} _ := by
    rw [markOverflow, group15]
    have hset (b : UInt8) : (⟨g.m.setIfInBounds N b⟩ : Sse2).overflow = b := by simp [overflow, N]
    simp only [hset]
    rw [UInt8.toNat_or, toNat_one_shiftLeft, Nat.testBit_or, Nat.testBit_two_pow]
    simp [Bool.beq_eq_decide_eq, eq_comm]
  isNotOverflowed_eq := isNotOverflowed_eq _ _
  maybeCausedOverflow_eq _ := by
    rw [maybeCausedOverflow, group15]
    simp only
    rw [isNotOverflowed_eq, Bool.not_not, UInt8.toNat_toUInt64]
  testBit_matchHash := testBit_movemask _ _ _
  testBit_matchAvailable := testBit_matchAvailable _ _
  testBit_matchOccupied := testBit_matchOccupied _ _

end Sse2

end BenchHashmaps.Boost
