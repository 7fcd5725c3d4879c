import BenchHashmaps.Boost.Group
import Mathlib.Tactic.IntervalCases

/-!
# The interleaved layout of a group

`group15` where there is no SIMD: bit `j` of the sixteen logical bytes makes
up sixteen adjacent bits of two 64-bit words, so a byte is compared in all
slots at once with a few word operations. The 16-bit views of the words are
little-endian.
-/

namespace BenchHashmaps.Boost

structure Interleaved where
  m0 : BitVec 64
  m1 : BitVec 64
  deriving DecidableEq, Repr

namespace Interleaved

/-- `mask` of `set_impl`; its `imask` at `n` is this at the complement of `n`. -/
def setMask : List (BitVec 64) :=
  [0x0000000000000000, 0x0000000000000001, 0x0000000000010000,
   0x0000000000010001, 0x0000000100000000, 0x0000000100000001,
   0x0000000100010000, 0x0000000100010001, 0x0001000000000000,
   0x0001000000000001, 0x0001000000010000, 0x0001000000010001,
   0x0001000100000000, 0x0001000100000001, 0x0001000100010000,
   0x0001000100010001]

def setIMask : List (BitVec 64) :=
  [0x0001000100010001, 0x0001000100010000, 0x0001000100000001,
   0x0001000100000000, 0x0001000000010001, 0x0001000000010000,
   0x0001000000000001, 0x0001000000000000, 0x0000000100010001,
   0x0000000100010000, 0x0000000100000001, 0x0000000100000000,
   0x0000000000010001, 0x0000000000010000, 0x0000000000000001,
   0x0000000000000000]

def matchMask : List (BitVec 64) :=
  [0x0000000000000000, 0x000000000000ffff, 0x00000000ffff0000,
   0x00000000ffffffff, 0x0000ffff00000000, 0x0000ffff0000ffff,
   0x0000ffffffff0000, 0x0000ffffffffffff, 0xffff000000000000,
   0xffff00000000ffff, 0xffff0000ffff0000, 0xffff0000ffffffff,
   0xffffffff00000000, 0xffffffff0000ffff, 0xffffffffffff0000,
   0xffffffffffffffff]

/-- `set_impl` on one word, for half a byte. -/
def setNibble (x : BitVec 64) (pos n : Nat) : BitVec 64 :=
  let x := x ||| (setMask.getD n 0) <<< pos
  x &&& ~~~((setIMask.getD n 0) <<< pos)

def setImpl (g : Interleaved) (pos : Nat) (n : UInt8) : Interleaved where
  m0 := setNibble g.m0 pos (n &&& 0xF).toNat
  m1 := setNibble g.m1 pos (n >>> 4).toNat

def matchImpl (g : Interleaved) (n : UInt8) : UInt32 :=
  let x := g.m0 ^^^ matchMask.getD (n &&& 0xF).toNat 0
  let x := ~~~((g.m1 ^^^ matchMask.getD (n >>> 4).toNat 0) ||| x)
  let y : BitVec 32 := (x &&& (x >>> 32)).setWidth 32
  let y := y &&& (y >>> 16)
  ⟨y &&& 0x7FFF⟩

def matchAvailable (g : Interleaved) : UInt32 :=
  let x := ~~~(g.m0 ||| g.m1)
  let y : BitVec 32 := (x &&& (x >>> 32)).setWidth 32
  let y := y &&& (y >>> 16)
  ⟨y &&& 0x7FFF⟩

def matchOccupied (g : Interleaved) : UInt32 :=
  let x := g.m0 ||| g.m1
  let y : BitVec 32 := (x ||| (x >>> 32)).setWidth 32
  let y := y ||| (y >>> 16)
  ⟨y &&& 0x7FFF⟩

/-- `reinterpret_cast<const std::uint16_t*>(m)[k]`. -/
def half (g : Interleaved) (k : Nat) : BitVec 16 :=
  ((if k < 4 then g.m0 else g.m1) >>> (16 * (k % 4))).setWidth 16

def isNotOverflowed (g : Interleaved) (hash : UInt64) : Bool :=
  g.half (hash.toNat % 8) &&& 0x8000 == 0

def markOverflow (g : Interleaved) (hash : UInt64) : Interleaved :=
  let k := hash.toNat % 8
  let bit := (0x8000 : BitVec 64) <<< (16 * (k % 4))
  if k < 4 then { g with m0 := g.m0 ||| bit } else { g with m1 := g.m1 ||| bit }

/-- Gathers the low three bits of the byte at `pos`. -/
def maybeCausedOverflow (g : Interleaved) (pos : Nat) : Bool :=
  let x := (g.m0 >>> pos) &&& 0x000100010001
  let y : BitVec 32 := (x ||| (x >>> 15) ||| (x >>> 30)).setWidth 32
  !g.isNotOverflowed (UInt64.ofNat y.toNat)

instance group15 : Group15 Interleaved where
  initialized := ⟨0, 0⟩
  dummyGroup := ⟨0x0000000000004000, 0x0000000000000000⟩
  set g pos hash := g.setImpl pos (reducedHash hash)
  setSentinel g := g.setImpl (N - 1) sentinel
  reset g pos := g.setImpl pos available
  matchHash g hash := g.matchImpl (reducedHash hash)
  isNotOverflowed := isNotOverflowed
  markOverflow := markOverflow
  maybeCausedOverflow := maybeCausedOverflow
  matchAvailable := matchAvailable
  matchOccupied := matchOccupied

-- ---------------------------------------------------------------------------
-- The logical bytes
-- ---------------------------------------------------------------------------

def bit (g : Interleaved) (i j : Nat) : Bool :=
  (if j < 4 then g.m0 else g.m1).getLsbD (16 * (j % 4) + i)

def byte (g : Interleaved) (i : Nat) : UInt8 :=
  UInt8.ofNat (Nat.ofBits fun j : Fin 8 => g.bit i j)

theorem testBit_byte (g : Interleaved) (i : Nat) (hj : j < 8) :
    (g.byte i).toNat.testBit j = g.bit i j := by
  have hlt : Nat.ofBits (fun j : Fin 8 => g.bit i j) < 256 := Nat.ofBits_lt_two_pow _
  rw [byte, UInt8.toNat_ofNat', Nat.mod_eq_of_lt hlt, Nat.testBit_ofBits_lt _ _ hj]

theorem byte_eq_iff (g : Interleaved) (i : Nat) (n : UInt8) :
    g.byte i = n ↔ ∀ j < 8, g.bit i j = n.toNat.testBit j := by
  rw [← UInt8.toNat_inj]
  constructor
  · intro h j hj
    rw [← h, testBit_byte g i hj]
  · intro h
    refine Nat.eq_of_testBit_eq fun j => ?_
    rcases Nat.lt_or_ge j 8 with hj | hj
    · rw [testBit_byte g i hj, h j hj]
    · have hpow : 2 ^ 8 ≤ 2 ^ j := Nat.pow_le_pow_right (by decide) hj
      rw [Nat.testBit_lt_two_pow ((UInt8.toNat_lt _).trans_le hpow),
        Nat.testBit_lt_two_pow ((UInt8.toNat_lt _).trans_le hpow)]

-- ---------------------------------------------------------------------------
-- Writing a byte
-- ---------------------------------------------------------------------------

theorem getLsbD_setMask : ∀ n < 16, ∀ t < 64,
    (setMask.getD n 0).getLsbD t = (t % 16 == 0 && n.testBit (t / 16)) := by decide

theorem getLsbD_setIMask : ∀ n < 16, ∀ t < 64,
    (setIMask.getD n 0).getLsbD t = (t % 16 == 0 && !n.testBit (t / 16)) := by decide

theorem getLsbD_matchMask : ∀ n < 16, ∀ t < 64,
    (matchMask.getD n 0).getLsbD t = n.testBit (t / 16) := by decide

theorem getLsbD_setNibble (x : BitVec 64) (hpos : pos < 16) (hn : n < 16) (ht : t < 64) :
    (setNibble x pos n).getLsbD t = if t % 16 = pos then n.testBit (t / 16) else x.getLsbD t := by
  rw [setNibble]
  simp only [BitVec.getLsbD_and, BitVec.getLsbD_or, BitVec.getLsbD_not, BitVec.getLsbD_shiftLeft,
    ht, decide_true, Bool.true_and]
  by_cases hlt : t < pos
  · have hne : t % 16 ≠ pos := by omega
    simp [hlt, hne]
  · rw [getLsbD_setMask n hn _ (by omega), getLsbD_setIMask n hn _ (by omega)]
    by_cases heq : t % 16 = pos
    · have hmod : (t - pos) % 16 = 0 := by omega
      have hdiv : (t - pos) / 16 = t / 16 := by omega
      rw [if_pos heq, hmod, hdiv]
      generalize n.testBit (t / 16) = b
      cases b <;> simp [hlt]
    · have hmod : ((t - pos) % 16 == 0) = false := beq_false_of_ne (by omega)
      simp [hlt, heq, hmod]

theorem toNat_and_low (n : UInt8) : (n &&& 0xF).toNat = n.toNat % 2 ^ 4 := by
  rw [UInt8.toNat_and, show (0xF : UInt8).toNat = 2 ^ 4 - 1 from rfl,
    Nat.and_two_pow_sub_one_eq_mod]

theorem bit_setImpl (g : Interleaved) (hpos : pos < 16) (n : UInt8) (hi : i < 16) (hj : j < 8) :
    (g.setImpl pos n).bit i j = if i = pos then n.toNat.testBit j else g.bit i j := by
  have hlow : (n &&& 0xF).toNat = n.toNat % 2 ^ 4 := toNat_and_low n
  have hhigh : (n >>> 4).toNat = n.toNat >>> 4 := UInt8.toNat_shiftRight n 4
  have hn := n.toNat_lt
  have hmod : (16 * (j % 4) + i) % 16 = i := by omega
  have hdiv : (16 * (j % 4) + i) / 16 = j % 4 := by omega
  rw [bit, bit, setImpl]
  split
  case isTrue h =>
    rw [getLsbD_setNibble _ hpos (by omega) (by omega), hmod, hdiv, hlow, Nat.testBit_mod_two_pow,
      Nat.mod_eq_of_lt h, decide_eq_true h, Bool.true_and]
  case isFalse h =>
    have hlt : (n >>> 4).toNat < 16 := by
      rw [hhigh, Nat.shiftRight_eq_div_pow]
      omega
    rw [getLsbD_setNibble _ hpos hlt (by omega), hmod, hdiv, hhigh, Nat.testBit_shiftRight]
    have hj4 : 4 + j % 4 = j := by omega
    rw [hj4]

theorem byte_setImpl (g : Interleaved) (hpos : pos < N) (n : UInt8) (hi : i < N) :
    (g.setImpl pos n).byte i = if i = pos then n else g.byte i := by
  have hpos : pos < 16 := Nat.lt_succ_of_lt hpos
  have hi : i < 16 := Nat.lt_succ_of_lt hi
  rw [byte_eq_iff]
  intro j hj
  rw [bit_setImpl g hpos n hi hj]
  split
  case isTrue => rfl
  case isFalse => exact (testBit_byte g i hj).symm

theorem overflowed_setImpl (g : Interleaved) (hpos : pos < N) (n : UInt8) (hj : j < 8) :
    (g.setImpl pos n).bit N j = g.bit N j := by
  rw [bit_setImpl g (Nat.lt_succ_of_lt hpos) n (by decide) hj, if_neg (Nat.ne_of_lt hpos).symm]

-- ---------------------------------------------------------------------------
-- Reading all slots at once
-- ---------------------------------------------------------------------------

theorem bit_low (g : Interleaved) (hj : j < 4) : g.bit i j = g.m0.getLsbD (16 * j + i) := by
  rw [bit, if_pos hj, Nat.mod_eq_of_lt hj]

theorem bit_high (g : Interleaved) (hj : j < 4) :
    g.bit i (4 + j) = g.m1.getLsbD (16 * j + i) := by
  rw [bit, if_neg (by omega), Nat.add_mod_left, Nat.mod_eq_of_lt hj]

theorem forall_lt_eight {P : Nat → Prop} : (∀ j < 8, P j) ↔ ∀ j < 4, P j ∧ P (4 + j) := by
  constructor
  · exact fun h j hj => ⟨h j (by omega), h (4 + j) (by omega)⟩
  · intro h j hj
    rcases Nat.lt_or_ge j 4 with hlt | hge
    · exact (h j hlt).1
    · obtain ⟨k, rfl⟩ := Nat.exists_eq_add_of_le hge
      exact (h k (by omega)).2

theorem getLsbD_slots (i : Nat) : (0x7FFF : BitVec 32).getLsbD i = decide (i < N) := by
  rw [← BitVec.testBit_toNat, show (0x7FFF : BitVec 32).toNat = 2 ^ 15 - 1 from rfl,
    Nat.testBit_two_pow_sub_one]
  rfl

/-- The two folds by halves gather the four sixteen-bit pieces of a word. -/
theorem testBit_foldAnd (x : BitVec 64) (i : Nat) :
    let y : BitVec 32 := (x &&& (x >>> 32)).setWidth 32
    (y &&& (y >>> 16) &&& 0x7FFF).toNat.testBit i ↔ i < N ∧ ∀ j < 4, x.getLsbD (16 * j + i) := by
  intro y
  rw [BitVec.testBit_toNat, BitVec.getLsbD_and, getLsbD_slots, Bool.and_eq_true,
    decide_eq_true_iff, and_comm]
  refine and_congr_right fun hi => ?_
  have hi : i < 15 := hi
  simp only [y, BitVec.getLsbD_and, BitVec.getLsbD_setWidth, BitVec.getLsbD_ushiftRight,
    show i < 32 by omega, show 16 + i < 32 by omega, decide_true, Bool.true_and, Bool.and_eq_true]
  constructor
  · rintro ⟨⟨h0, h2⟩, h1, h3⟩ j hj
    interval_cases j
    · simpa using h0
    · exact h1
    · exact h2
    · rwa [← Nat.add_assoc] at h3
  · intro h
    refine ⟨⟨?_, h 2 (by decide)⟩, h 1 (by decide), ?_⟩
    · simpa using h 0 (by decide)
    · simpa [← Nat.add_assoc] using h 3 (by decide)

theorem testBit_foldOr (x : BitVec 64) (i : Nat) :
    let y : BitVec 32 := (x ||| (x >>> 32)).setWidth 32
    ((y ||| (y >>> 16)) &&& 0x7FFF).toNat.testBit i ↔ i < N ∧ ∃ j < 4, x.getLsbD (16 * j + i) := by
  intro y
  rw [BitVec.testBit_toNat, BitVec.getLsbD_and, getLsbD_slots, Bool.and_eq_true,
    decide_eq_true_iff, and_comm]
  refine and_congr_right fun hi => ?_
  have hi : i < 15 := hi
  simp only [y, BitVec.getLsbD_or, BitVec.getLsbD_setWidth, BitVec.getLsbD_ushiftRight,
    show i < 32 by omega, show 16 + i < 32 by omega, decide_true, Bool.true_and, Bool.or_eq_true]
  constructor
  · rintro ((h0 | h2) | h1 | h3)
    · exact ⟨0, by decide, by simpa using h0⟩
    · exact ⟨2, by decide, h2⟩
    · exact ⟨1, by decide, h1⟩
    · exact ⟨3, by decide, by rwa [← Nat.add_assoc] at h3⟩
  · rintro ⟨j, hj, h⟩
    interval_cases j
    · exact .inl (.inl (by simpa using h))
    · exact .inr (.inl h)
    · exact .inl (.inr h)
    · exact .inr (.inr (by rwa [← Nat.add_assoc]))

theorem testBit_matchImpl (g : Interleaved) (n : UInt8) (i : Nat) :
    (g.matchImpl n).toNat.testBit i = (decide (i < N) && g.byte i == n) := by
  have hlow : (n &&& 0xF).toNat = n.toNat % 2 ^ 4 := toNat_and_low n
  have hhigh : (n >>> 4).toNat = n.toNat >>> 4 := UInt8.toNat_shiftRight n 4
  have hn := n.toNat_lt
  rw [Bool.eq_iff_iff, Bool.and_eq_true, decide_eq_true_iff, beq_iff_eq, byte_eq_iff,
    forall_lt_eight]
  refine (testBit_foldAnd _ i).trans (and_congr_right fun hi => forall₂_congr fun j hj => ?_)
  have hi : i < 15 := hi
  have ht : 16 * j + i < 64 := by omega
  have hdiv : (16 * j + i) / 16 = j := by omega
  have hlt : (n >>> 4).toNat < 16 := by
    rw [hhigh, Nat.shiftRight_eq_div_pow]
    omega
  rw [bit_low g hj, bit_high g hj, BitVec.getLsbD_not, BitVec.getLsbD_or, BitVec.getLsbD_xor,
    BitVec.getLsbD_xor, getLsbD_matchMask _ hlt _ ht, getLsbD_matchMask _ (by omega) _ ht, hdiv,
    hlow, hhigh, Nat.testBit_mod_two_pow, Nat.testBit_shiftRight]
  simp [hj, ht, and_comm]

theorem testBit_matchAvailable (g : Interleaved) (i : Nat) :
    g.matchAvailable.toNat.testBit i = (decide (i < N) && g.byte i == available) := by
  rw [Bool.eq_iff_iff, Bool.and_eq_true, decide_eq_true_iff, beq_iff_eq, byte_eq_iff,
    forall_lt_eight]
  refine (testBit_foldAnd _ i).trans (and_congr_right fun hi => forall₂_congr fun j hj => ?_)
  have hi : i < 15 := hi
  have ht : 16 * j + i < 64 := by omega
  rw [bit_low g hj, bit_high g hj, BitVec.getLsbD_not, BitVec.getLsbD_or]
  simp [ht, available]

theorem testBit_matchOccupied (g : Interleaved) (i : Nat) :
    g.matchOccupied.toNat.testBit i = (decide (i < N) && g.byte i != available) := by
  rw [Bool.eq_iff_iff, Bool.and_eq_true, decide_eq_true_iff, bne_iff_ne, ne_eq, byte_eq_iff,
    forall_lt_eight]
  refine (testBit_foldOr _ i).trans (and_congr_right fun hi => ?_)
  have hi : i < 15 := hi
  simp only [not_forall, exists_prop]
  refine exists_congr fun j => and_congr_right fun hj => ?_
  rw [bit_low g hj, bit_high g hj, BitVec.getLsbD_or]
  simp only [available, UInt8.toNat_zero, Nat.zero_testBit]
  cases g.m0.getLsbD (16 * j + i) <;> cases g.m1.getLsbD (16 * j + i) <;> decide

-- ---------------------------------------------------------------------------
-- The overflow byte
-- ---------------------------------------------------------------------------

theorem isNotOverflowed_eq (g : Interleaved) (hash : UInt64) :
    g.isNotOverflowed hash = !g.bit N (hash.toNat % 8) := by
  have hmask : (0x8000 : BitVec 16) = BitVec.twoPow 16 15 := by decide
  rw [isNotOverflowed, hmask, BitVec.and_twoPow, half, bit, BitVec.getLsbD_setWidth,
    BitVec.getLsbD_ushiftRight, decide_eq_true (show 15 < 16 by decide), Bool.true_and]
  change _ = !(if hash.toNat % 8 < 4 then g.m0 else g.m1).getLsbD (16 * (hash.toNat % 8 % 4) + 15)
  cases (if hash.toNat % 8 < 4 then g.m0 else g.m1).getLsbD (16 * (hash.toNat % 8 % 4) + 15) <;>
    rfl

theorem getLsbD_overflowBit (hi : i < 16) (k j : Nat) :
    ((0x8000 : BitVec 64) <<< (16 * (k % 4))).getLsbD (16 * (j % 4) + i) =
      (i == N && j % 4 == k % 4) := by
  have hbit : (0x8000 : BitVec 64) = BitVec.twoPow 64 15 := by decide
  have ht : 16 * (j % 4) + i < 64 := by omega
  rw [hbit, BitVec.getLsbD_shiftLeft, BitVec.getLsbD_twoPow, decide_eq_true ht, Bool.true_and,
    decide_eq_true (show 15 < 64 by decide), Bool.true_and, Bool.eq_iff_iff]
  simp only [N, Bool.and_eq_true, Bool.not_eq_true', decide_eq_false_iff_not, decide_eq_true_iff,
    beq_iff_eq]
  omega

theorem bit_markOverflow (g : Interleaved) (hash : UInt64) (hi : i < 16) (hj : j < 8) :
    (g.markOverflow hash).bit i j = (g.bit i j || (i == N && j == hash.toNat % 8)) := by
  have hk : hash.toNat % 8 < 8 := Nat.mod_lt _ (by decide)
  rw [markOverflow]
  generalize hash.toNat % 8 = k at hk
  by_cases hk4 : k < 4 <;> by_cases hj4 : j < 4 <;>
    simp only [hk4, hj4, bit, if_true, if_false, BitVec.getLsbD_or, getLsbD_overflowBit hi]
  · rw [Nat.mod_eq_of_lt hj4, Nat.mod_eq_of_lt hk4]
  · have hne : (j == k) = false := beq_false_of_ne (by omega)
    simp [hne]
  · have hne : (j == k) = false := beq_false_of_ne (by omega)
    simp [hne]
  · have heq : (j % 4 == k % 4) = (j == k) := by
      rw [Bool.eq_iff_iff, beq_iff_eq, beq_iff_eq]
      omega
    rw [heq]

theorem maybeCausedOverflow_eq (g : Interleaved) (pos : Nat) :
    g.maybeCausedOverflow pos = g.bit N ((g.byte pos).toNat % 8) := by
  rw [maybeCausedOverflow, isNotOverflowed_eq, Bool.not_not]
  congr 1
  rw [UInt64.toNat_ofNat', Nat.mod_eq_of_lt ((BitVec.isLt _).trans (by decide))]
  refine Nat.eq_of_testBit_eq fun t => ?_
  rw [show 8 = 2 ^ 3 from rfl, Nat.testBit_mod_two_pow, Nat.testBit_mod_two_pow]
  by_cases ht : t < 3
  · rw [testBit_byte g pos (by omega), bit_low g (by omega), BitVec.testBit_toNat,
      decide_eq_true ht, Bool.true_and, Bool.true_and]
    interval_cases t <;> simp only [BitVec.getLsbD_setWidth, BitVec.getLsbD_or,
      BitVec.getLsbD_ushiftRight, BitVec.getLsbD_and] <;> simp [Nat.add_comm]
  · simp [ht]

theorem dummyGroup_eq : (dummyGroup : Interleaved) = setImpl ⟨0, 0⟩ (N - 1) sentinel := by decide

theorem bit_zero (i j : Nat) : (⟨0, 0⟩ : Interleaved).bit i j = false := by simp [bit]

theorem byte_zero (i : Nat) : (⟨0, 0⟩ : Interleaved).byte i = available :=
  (byte_eq_iff _ i _).mpr fun j _ => by rw [bit_zero, available, UInt8.toNat_zero, Nat.zero_testBit]

instance layout : Group15.Layout Interleaved where
  byte := byte
  overflowed g j := g.bit N j
  byte_initialized := byte_zero _
  overflowed_initialized := bit_zero N _
  byte_dummyGroup hi := by
    rw [dummyGroup_eq, byte_setImpl _ (by decide) _ hi, byte_zero]
  overflowed_dummyGroup hj := by
    rw [dummyGroup_eq, overflowed_setImpl _ (by decide) _ hj, bit_zero]
  byte_set hpos hi := byte_setImpl _ hpos _ hi
  overflowed_set hpos hj := overflowed_setImpl _ hpos _ hj
  byte_setSentinel hi := byte_setImpl _ (by decide) _ hi
  overflowed_setSentinel hj := overflowed_setImpl _ (by decide) _ hj
  byte_reset hpos hi := byte_setImpl _ hpos _ hi
  overflowed_reset hpos hj := overflowed_setImpl _ hpos _ hj
  byte_markOverflow {i g hash} hi := by
    refine (byte_eq_iff _ i _).mpr fun j hj => ?_
    change (markOverflow g hash).bit i j = _
    rw [bit_markOverflow g hash (Nat.lt_succ_of_lt hi) hj, testBit_byte g i hj,
      beq_false_of_ne (Nat.ne_of_lt hi), Bool.false_and, Bool.or_false]
  overflowed_markOverflow {j g hash} hj := by
    change (markOverflow g hash).bit N j = _
    rw [bit_markOverflow g hash (by decide) hj, beq_self_eq_true, Bool.true_and]
  isNotOverflowed_eq := isNotOverflowed_eq _ _
  maybeCausedOverflow_eq _ := maybeCausedOverflow_eq _ _
  testBit_matchHash := testBit_matchImpl _ _ _
  testBit_matchAvailable := testBit_matchAvailable _ _
  testBit_matchOccupied := testBit_matchOccupied _ _

end Interleaved

end BenchHashmaps.Boost
