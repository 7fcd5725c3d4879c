import BenchHashmaps.Boost.Rehash

/-!
# The operations of the table

The invariant of a table, and for each operation what it does to the elements.
No operation faults: the arrays are never read or written outside their
bounds, and every probing ends.
-/

namespace BenchHashmaps.Boost

open Lib
open Group15 (Layout)

variable {γ K V : Type} {P : Policy K V} [Group15 γ]

namespace Table

def contents (t : Table γ K V) : Multiset (K × V) := t.arrays.contents

variable [Layout γ]

/-- A table with arrays of its own. -/
structure Filled (P : Policy K V) (level : Nat) (t : Table γ K V) : Prop where
  arrays : t.arrays.Ok P level
  size_eq : t.size.toNat = t.contents.card
  size_le : t.size.toNat ≤ t.ml.toNat
  ml_le : t.ml.toNat ≤ slots level

/-- Either the table has no capacity, or it is in order. -/
def Ok (P : Policy K V) (t : Table γ K V) : Prop := t = empty ∨ ∃ level, t.Filled P level

theorem empty_ok : (empty : Table γ K V).Ok P := .inl rfl

/-- The maximum load is the one that belongs to the capacity. `erase` may lower
it. -/
def Undrifted (t : Table γ K V) : Prop := t.ml = initialMaxLoad t.capacity

theorem Ok.size_eq {t : Table γ K V} (h : t.Ok P) : t.size.toNat = t.contents.card := by
  rcases h with rfl | ⟨level, h⟩
  · rfl
  · exact h.size_eq

theorem Ok.unique {t : Table γ K V} (h : t.Ok P) (he : (x, v) ∈ t.contents)
    (he' : (x, v') ∈ t.contents) : v = v' := by
  rcases h with rfl | ⟨level, h⟩
  · exact absurd he (Multiset.notMem_zero _)
  · obtain ⟨pos, n, hn, hs⟩ := Arrays.mem_contents.mp he
    obtain ⟨pos', n', hn', hs'⟩ := Arrays.mem_contents.mp he'
    obtain ⟨rfl, rfl⟩ := h.arrays.unique hn hn' hs hs' rfl
    rw [hs] at hs'
    cases hs'
    rfl

-- ---------------------------------------------------------------------------
-- Rehashing
-- ---------------------------------------------------------------------------

/-- What `unchecked_rehash` makes of new arrays, which may hold one new
element. -/
structure Rehashed (P : Policy K V) (level : Nat) (t : Table γ K V) (b : Arrays γ K V)
    (t' : Table γ K V) : Prop where
  arrays : t'.arrays.Ok P level
  size : t'.size = t.size
  ml : t'.ml = initialMaxLoad t'.arrays.capacity
  contents : t'.contents = b.contents + t.contents
  kept : n < 15 → b.slot pos n = some e → t'.arrays.slot pos n = some e

theorem Ok.uncheckedRehash_spec {t : Table γ K V} {b : Arrays γ K V} (h : t.Ok P)
    (hb : b.Ok P level) (hnew : ∀ e ∈ t.contents, ∀ e' ∈ b.contents, e'.1 ≠ e.1)
    (hroom : b.contents.card + t.contents.card ≤ slots level) (hfuel : 2 ^ 64 ≤ fuel) :
    ∃ t', t.uncheckedRehash P fuel b = .ok t' ∧ Rehashed P level t b t' := by
  have hfold : ∃ b', t.arrays.elementSlots.foldlM (t.arrays.transferElement P fuel) b = .ok b' ∧
      b'.Ok P level ∧ b'.contents = b.contents + t.contents ∧
      ∀ pos n e, n < 15 → b.slot pos n = some e → b'.slot pos n = some e := by
    rcases h with rfl | ⟨level', h⟩
    · exact ⟨b, rfl, hb, (add_zero _).symm, fun _ _ _ _ he => he⟩
    · exact h.arrays.transferAll_spec hb hnew hroom (hb.groups_le hfuel)
  obtain ⟨b', hfold, hok, hcontents, hkept⟩ := hfold
  refine ⟨{ t with arrays := b', ml := initialMaxLoad b'.capacity }, ?_,
    ⟨hok, rfl, rfl, hcontents, fun hn he => hkept _ _ _ hn he⟩⟩
  rw [uncheckedRehash, hfold, leaving_ok, ok_bind]

theorem load_le {a : Arrays γ K V} (hm : sizeForLoad x = .ok m) (ha : a.Ok P level)
    (hle : m.toNat ≤ slots level) :
    x.toNat ≤ (initialMaxLoad a.capacity).toNat ∧
      (initialMaxLoad a.capacity).toNat ≤ slots level := by
  have hlevel := ha.level_le
  exact ⟨le_initialMaxLoad hm ha.one_le (by omega) hle ha.capacity_eq,
    initialMaxLoad_le ha.capacity_eq (by omega)⟩

theorem le_slots_levelFor (n : Nat) : n ≤ slots (levelFor n) := by
  have := lt_levelFor n
  have := slots_succ (levelFor n)
  omega

theorem levelFor_slots (h : 1 ≤ level) : levelFor (slots level) = level := by
  refine Nat.le_antisymm (levelFor_le h (by have := slots_succ level; omega)) ?_
  by_contra hlt
  have hlt : levelFor (slots level) + 1 ≤ level := Nat.lt_of_not_le hlt
  have h1 := lt_levelFor (slots level)
  have h2 := slots_succ level
  have h3 : 2 ^ (levelFor (slots level) + 1) ≤ 2 ^ level := Nat.pow_le_pow_right (by decide) hlt
  have h4 := Nat.two_pow_pos (levelFor (slots level))
  rw [pow_succ] at h3
  omega

theorem Ok.sizeForLoad_spec {t : Table γ K V} (h : t.Ok P) {x : UInt64}
    (hx : x.toNat ≤ t.size.toNat + t.size.toNat / 61 + 1) :
    ∃ m, sizeForLoad x = .ok m ∧ P.Fits m.toNat := by
  rcases h with rfl | ⟨level, h⟩
  · rw [show (empty : Table γ K V).size = 0 from rfl] at hx
    have hx : x.toNat ≤ 1 := hx
    have hone : x.toNat ≤ 16 * 2 ^ 0 := hx.trans (by decide)
    obtain ⟨m, hm, hle⟩ := sizeForLoad_next hone (by decide)
    exact ⟨m, hm, P.fits_small (levelFor_le le_rfl (by omega))⟩
  · have hslots := slots_succ level
    have hle := h.size_le
    have hml := h.ml_le
    have hlevel := h.arrays.level_le
    have hnext : x.toNat ≤ 16 * 2 ^ level := by omega
    obtain ⟨m, hm, hmle⟩ := sizeForLoad_next hnext (by omega)
    refine ⟨m, hm, Policy.fits_next h.arrays.bytes (levelFor_le (by omega) ?_)⟩
    rw [pow_succ]
    have := Nat.two_pow_pos level
    omega

theorem Ok.size_lt {t : Table γ K V} (h : t.Ok P) : t.size.toNat < 2 ^ 61 := by
  rcases h with rfl | ⟨level, h⟩
  · exact Nat.two_pow_pos 61
  · have hlevel := h.arrays.level_le
    have hslots := slots_succ level
    have hpow : 2 ^ level ≤ 2 ^ 57 := Nat.pow_le_pow_right (by decide) hlevel
    have h1 := h.size_le
    have h2 := h.ml_le
    omega

theorem Ok.toNat_size_succ {t : Table γ K V} (h : t.Ok P) :
    (t.size + 1).toNat = t.size.toNat + 1 := by
  have hlt := h.size_lt
  rw [UInt64.toNat_add, show (1 : UInt64).toNat = 1 from rfl]
  omega

-- ---------------------------------------------------------------------------
-- Inserting
-- ---------------------------------------------------------------------------

theorem Filled.emplaced {t : Table γ K V} (h : t.Filled P level) (hlt : t.size < t.ml)
    (hnew : ∀ v, (e.1, v) ∉ t.contents) (hfuel : 2 ^ 64 ≤ fuel) :
    ∃ arrays loc, Arrays.nosizeUncheckedEmplaceAt (P.hashFor e.1) e fuel t.arrays
        ⟨t.arrays.positionFor (P.hashFor e.1), 0⟩ = .ok (arrays, loc) ∧
      { t with arrays, size := t.size + 1 }.Filled P level ∧
      Arrays.Placed P level t.arrays e (arrays, loc) := by
  have hlt : t.size.toNat < t.ml.toNat := UInt64.lt_iff_toNat_lt.mp hlt
  have hcard : t.arrays.contents.card < slots level := by
    have hml := h.ml_le
    have heq : t.size.toNat = t.arrays.contents.card := h.size_eq
    omega
  obtain ⟨⟨arrays, loc⟩, hr, hplaced⟩ := h.arrays.emplaceAt_spec (e := e)
    (fun e' he' hkey => hnew e'.2 (hkey ▸ he')) hcard (h.arrays.groups_le hfuel)
  have hsucc := Ok.toNat_size_succ (.inr ⟨level, h⟩)
  refine ⟨arrays, loc, hr, ?_, hplaced⟩
  exact
    { arrays := hplaced.ok
      size_eq := by
        rw [hsucc, h.size_eq]
        exact (congrArg _ hplaced.contents).trans (Multiset.card_cons _ _) |>.symm
      size_le := hsucc ▸ hlt
      ml_le := h.ml_le }

theorem Ok.growth_spec {t : Table γ K V} (h : t.Ok P) (al : Allocator P.sizeofValue) :
    t.newArraysForGrowth P al = .error .badAlloc ∨
      ∃ (b : Arrays γ K V) (level : Nat), t.newArraysForGrowth P al = .ok b ∧ b.Ok P level ∧
        b.contents = 0 ∧ ∀ a : Arrays γ K V, a.Ok P level →
          t.size.toNat + 1 ≤ (initialMaxLoad a.capacity).toNat ∧
            (initialMaxLoad a.capacity).toNat ≤ slots level := by
  have hsize := h.size_lt
  have hx : (t.size + t.size / 61 + 1).toNat = t.size.toNat + t.size.toNat / 61 + 1 := by
    rw [UInt64.toNat_add, UInt64.toNat_add, UInt64.toNat_div,
      show (61 : UInt64).toNat = 61 from rfl,
      show (1 : UInt64).toNat = 1 from rfl]
    omega
  obtain ⟨m, hm, hfits⟩ := h.sizeForLoad_spec hx.le
  have hpos := one_le_sizeForLoad hm (by omega)
  have hne : m ≠ 0 := by
    rintro rfl
    exact absurd hpos (by decide)
  rw [newArraysForGrowth, hm, ok_bind]
  rcases Arrays.new_spec (γ := γ) al hne hfits with hbad | ⟨b, hb, hok, hzero⟩
  · exact .inl hbad
  · refine .inr ⟨b, _, hb, hok, hzero, fun a ha => ?_⟩
    obtain ⟨hle, hml⟩ := load_le hm ha (le_slots_levelFor m.toNat)
    exact ⟨by omega, hml⟩

theorem Ok.emplaceWithRehash_spec {t : Table γ K V} (h : t.Ok P) (al : Allocator P.sizeofValue)
    (hnew : ∀ v, (e.1, v) ∉ t.contents) (hfuel : 2 ^ 64 ≤ fuel) :
    t.uncheckedEmplaceWithRehash P al fuel (P.hashFor e.1) e = .error (.badAlloc, t) ∨
      ∃ t' loc, t.uncheckedEmplaceWithRehash P al fuel (P.hashFor e.1) e = .ok (t', loc) ∧
        t'.Ok P ∧ t'.contents = e ::ₘ t.contents ∧ t'.arrays.slot loc.1 loc.2 = some e ∧
        t'.Undrifted := by
  rw [uncheckedEmplaceWithRehash]
  rcases h.growth_spec al with hbad | ⟨b, level, hb, hok, hzero, hload⟩
  · left
    rw [hbad, leaving_error]
    rfl
  · right
    have hsize := h.size_eq
    have hroom := hload b hok
    obtain ⟨⟨b₁, loc⟩, hr, hplaced⟩ := hok.emplaceAt_spec (e := e) (by simp [hzero])
      (by rw [hzero, Multiset.card_zero]; omega) (hok.groups_le hfuel)
    have hcontents : b₁.contents = {e} := by
      rw [hplaced.contents, hzero]
      rfl
    obtain ⟨t', hrehash, hre⟩ := h.uncheckedRehash_spec hplaced.ok
      (fun e' he' e'' he'' hkey => by
        rw [hcontents, Multiset.mem_singleton] at he''
        subst he''
        exact hnew e'.2 (hkey ▸ he'))
      (by rw [hcontents, Multiset.card_singleton, ← hsize]; omega) hfuel
    rw [hb, leaving_ok, ok_bind]
    simp only [hr, leaving_ok, ok_bind, hrehash]
    refine ⟨_, loc, rfl, .inr ⟨level, ?_⟩, ?_, hre.kept hplaced.lt hplaced.slot, hre.ml⟩
    · have hsucc : (t'.size + 1).toNat = t.size.toNat + 1 := by rw [hre.size, h.toNat_size_succ]
      obtain ⟨hle, hml⟩ := hload t'.arrays hre.arrays
      exact
        { arrays := hre.arrays
          size_eq := by
            change (t'.size + 1).toNat = t'.contents.card
            rw [hsucc, hre.contents, hcontents, Multiset.card_add, Multiset.card_singleton, hsize,
              Nat.add_comm]
          size_le := by
            change (t'.size + 1).toNat ≤ t'.ml.toNat
            rw [hsucc, hre.ml]
            exact hle
          ml_le := by
            change t'.ml.toNat ≤ slots level
            rw [hre.ml]
            exact hml }
    · exact hre.contents.trans (by rw [hcontents, Multiset.singleton_add])

-- ---------------------------------------------------------------------------
-- Taking out
-- ---------------------------------------------------------------------------

theorem Filled.erased {t : Table γ K V} (h : t.Filled P level) (hn : n < 15)
    (he : t.arrays.slot pos n = some e) :
    ∃ a₁ t', t.arrays.setElement pos n none = .ok a₁ ∧
      recoverSlot { t with arrays := a₁ } pos n = .ok t' ∧ t'.Filled P level ∧
      t.contents = e ::ₘ t'.contents := by
  have hpos := h.arrays.pos_lt he
  have hlt := h.arrays.slot_lt he
  obtain ⟨pg, -, hpg⟩ := h.arrays.group_ok hpos
  obtain ⟨a₁, hset, hgeo, ⟨es, hes, hes₁⟩, hgroups, hr⟩ :=
    h.arrays.toGeometry.rewrite hlt hn hpg none (Group15.reset pg n) available
      (fun n' hn' => Layout.byte_reset hn hn') (fun j hj => Layout.overflowed_reset hn hj)
  have hcontents : t.contents = e ::ₘ (a₁.setGroup pos (Group15.reset pg n)).contents := by
    have hfull := (Arrays.slot_eq_some hes).mp he
    change Lib.contents (t.arrays.elements.getD []) = e ::ₘ Lib.contents (a₁.elements.getD [])
    rw [hes, hes₁, Option.getD_some, Option.getD_some, contents_set_none hfull]
  have hsize : t.size.toNat = (a₁.setGroup pos (Group15.reset pg n)).contents.card + 1 := by
    rw [h.size_eq, hcontents, Multiset.card_cons]
  have hone : (1 : UInt64).toNat = 1 := rfl
  have hpred : (t.size - 1).toNat = t.size.toNat - 1 := by
    rw [UInt64.toNat_sub_of_le _ _ (UInt64.le_iff_toNat_le.mpr (by omega)), hone]
  have hml : t.ml.toNat - 1 ≤ (t.ml - (maybeCausedOverflow pg n).toUInt64).toNat ∧
      (t.ml - (maybeCausedOverflow pg n).toUInt64).toNat ≤ t.ml.toNat := by
    have hle := h.size_le
    cases maybeCausedOverflow pg n
    · rw [show Bool.toUInt64 false = 0 from rfl, UInt64.sub_zero]
      omega
    · rw [show Bool.toUInt64 true = 1 from rfl,
        UInt64.toNat_sub_of_le _ _ (UInt64.le_iff_toNat_le.mpr (by omega)), hone]
      omega
  have hgroup : a₁.group pos = .ok pg := by
    rw [Arrays.group, hgroups, hpg]
  refine ⟨a₁, ⟨a₁.setGroup pos (Group15.reset pg n), t.ml - (maybeCausedOverflow pg n).toUInt64,
    t.size - 1⟩, hset, by rw [recoverSlot, hgroup, leaving_ok, ok_bind], ?_, hcontents⟩
  have hsle := h.size_le
  exact
    { arrays := h.arrays.remove hr hgeo hpos hn hlt
      size_eq := by
        change (t.size - 1).toNat = (a₁.setGroup pos (Group15.reset pg n)).contents.card
        omega
      size_le := by
        change (t.size - 1).toNat ≤ (t.ml - (maybeCausedOverflow pg n).toUInt64).toNat
        omega
      ml_le := hml.2.trans h.ml_le }

-- ---------------------------------------------------------------------------
-- `clear`
-- ---------------------------------------------------------------------------

theorem Ok.clear_spec {t : Table γ K V} (h : t.Ok P) :
    ∃ t', t.clear = .ok t' ∧ t'.Ok P ∧ t'.contents = 0 ∧ t'.Undrifted := by
  rw [clear]
  rcases h with rfl | ⟨level, h⟩
  · exact ⟨_, rfl, empty_ok, rfl, rfl⟩
  · obtain ⟨es, hes, -⟩ := h.arrays.elements
    obtain ⟨a', hclear, hok, hzero⟩ := h.arrays.clear_spec
    rw [hes, Option.isSome_some, if_pos rfl, hclear, leaving_ok, ok_bind]
    refine ⟨_, rfl, .inr ⟨level, ?_⟩, hzero, rfl⟩
    have hlevel := hok.level_le
    exact
      { arrays := hok
        size_eq := by
          change (0 : UInt64).toNat = a'.contents.card
          rw [hzero]
          rfl
        size_le := Nat.zero_le _
        ml_le := initialMaxLoad_le hok.capacity_eq (by omega) }

-- ---------------------------------------------------------------------------
-- `rehash` and `reserve`
-- ---------------------------------------------------------------------------

structure Resized (P : Policy K V) (n : UInt64) (t t' : Table γ K V) : Prop where
  ok : t'.Ok P
  contents : t'.contents = t.contents
  ml : t' = t ∨ t'.Undrifted
  room : n ≠ 0 → ∃ level, t'.Filled P level ∧ n.toNat ≤ slots level

theorem Ok.rehashTo_spec {t : Table γ K V} (h : t.Ok P) (al : Allocator P.sizeofValue)
    (hm : sizeForLoad t.size = .ok m) (hle : m ≤ n) (hfits : P.Fits n.toNat)
    (hfuel : 2 ^ 64 ≤ fuel) :
    (t.leaving (Arrays.new P al (capacityFor n)) >>= t.uncheckedRehash P fuel) =
        .error (.badAlloc, t) ∨
      ∃ t', (t.leaving (Arrays.new P al (capacityFor n)) >>= t.uncheckedRehash P fuel) = .ok t' ∧
        Resized P n t t' := by
  have hlevel := hfits.level_le
  have hcap := toNat_capacityFor (n := n) (by omega)
  have hsame : levelFor (capacityFor n).toNat = levelFor n.toNat := by
    rw [hcap, levelFor_slots (one_le_levelFor _)]
  have hne : capacityFor n ≠ 0 := by
    intro hzero
    rw [hzero] at hcap
    have := slots_succ (levelFor n.toNat)
    have := Nat.two_pow_pos (levelFor n.toNat)
    have : (0 : UInt64).toNat = 0 := rfl
    omega
  have hfits' : P.Fits (capacityFor n).toNat := by
    rw [Policy.Fits, hsame]
    exact hfits
  rcases Arrays.new_spec (γ := γ) al hne hfits' with hbad | ⟨b, hb, hok, hzero⟩
  · left
    rw [hbad, leaving_error]
    rfl
  · right
    rw [hsame] at hok
    have hmle : m.toNat ≤ slots (levelFor n.toNat) :=
      (UInt64.le_iff_toNat_le.mp hle).trans (le_slots_levelFor n.toNat)
    have hload : ∀ a : Arrays γ K V, a.Ok P (levelFor n.toNat) →
        t.size.toNat ≤ (initialMaxLoad a.capacity).toNat ∧
          (initialMaxLoad a.capacity).toNat ≤ slots (levelFor n.toNat) :=
      fun a ha => load_le hm ha hmle
    obtain ⟨t', hr, hre⟩ := h.uncheckedRehash_spec hok (by simp [hzero])
      (by
        have := hload b hok
        rw [hzero, Multiset.card_zero, ← h.size_eq]
        omega) hfuel
    have hcontents : t'.contents = t.contents := by rw [hre.contents, hzero, zero_add]
    obtain ⟨hsle, hml⟩ := hload t'.arrays hre.arrays
    have hfilled : t'.Filled P (levelFor n.toNat) :=
      { arrays := hre.arrays
        size_eq := by rw [hre.size, hcontents, h.size_eq]
        size_le := by rw [hre.size, hre.ml]; exact hsle
        ml_le := by rw [hre.ml]; exact hml }
    exact ⟨t', by rw [hb, leaving_ok, ok_bind, hr],
      ⟨.inr ⟨_, hfilled⟩, hcontents, .inr hre.ml, fun _ => ⟨_, hfilled, le_slots_levelFor _⟩⟩⟩

theorem Ok.rehashZero_spec {t : Table γ K V} (h : t.Ok P) (hsize : t.size = 0)
    (al : Allocator P.sizeofValue) (fuel : Nat) :
    (t.leaving (Arrays.new P al 0) >>= t.uncheckedRehash P fuel) = .ok empty := by
  have hslots : t.arrays.elementSlots = [] := by
    rcases h with rfl | ⟨level, h⟩
    · rfl
    · rw [← List.length_eq_zero_iff, h.arrays.length_elementSlots]
      have heq : t.size.toNat = t.arrays.contents.card := h.size_eq
      rw [← heq, hsize]
      rfl
  rw [show (Arrays.new P al 0 : Except Exit (Arrays γ K V)) = .ok empty.arrays from rfl,
    leaving_ok, ok_bind, uncheckedRehash, hslots]
  change Except.ok _ = _
  rw [hsize]
  rfl

theorem Ok.resized_self {t : Table γ K V} (h : t.Ok P) (hfits : P.Fits n.toNat)
    (hcap : n ≠ 0 → capacityFor n = t.capacity) : Resized P n t t := by
  refine ⟨h, rfl, .inl rfl, fun hne => ?_⟩
  have hlevel := hfits.level_le
  have hslots := toNat_capacityFor (n := n) (by omega)
  have hle := le_slots_levelFor n.toNat
  rw [hcap hne] at hslots
  rcases h with rfl | ⟨level, h⟩
  · have hzero : (empty : Table γ K V).capacity.toNat = 0 := rfl
    have := slots_succ (levelFor n.toNat)
    have := Nat.two_pow_pos (levelFor n.toNat)
    omega
  · have hcap' : t.capacity.toNat = slots level := h.arrays.capacity_eq
    exact ⟨level, h, by omega⟩

theorem Ok.rehash_spec {t : Table γ K V} (h : t.Ok P) (al : Allocator P.sizeofValue)
    (hfits : P.Fits n.toNat) (hfuel : 2 ^ 64 ≤ fuel) :
    t.rehash P al fuel n = .error (.badAlloc, t) ∨
      ∃ t', t.rehash P al fuel n = .ok t' ∧ Resized P n t t' := by
  obtain ⟨m, hm, hmfits⟩ := h.sizeForLoad_spec (x := t.size) (by omega)
  rw [rehash, hm, leaving_ok, ok_bind]
  dsimp only
  have hmax : m ≤ (if n < m then m else n) ∧ n ≤ (if n < m then m else n) ∧
      P.Fits (if n < m then m else n).toNat := by
    split
    case isTrue hlt => exact ⟨le_refl m, UInt64.le_of_lt hlt, hmfits⟩
    case isFalse hlt => exact ⟨UInt64.not_lt.mp hlt, le_refl n, hfits⟩
  generalize (if n < m then m else n) = n' at hmax
  obtain ⟨hle, hn, hfits'⟩ := hmax
  have hn : n.toNat ≤ n'.toNat := UInt64.le_iff_toNat_le.mp hn
  -- what is done for `n'` is enough for `n`
  have hsmaller : ∀ t', Resized P n' t t' → Resized P n t t' := by
    refine fun t' hre => ⟨hre.ok, hre.contents, hre.ml, fun hne => ?_⟩
    have hne' : n' ≠ 0 := by
      rintro rfl
      exact hne (UInt64.toNat_inj.mp (Nat.le_zero.mp hn))
    obtain ⟨level, hfilled, hroom⟩ := hre.room hne'
    exact ⟨level, hfilled, hn.trans hroom⟩
  by_cases hzero : n' = 0
  · subst hzero
    simp only [ne_eq, not_true_eq_false, if_false]
    have hm0 : m.toNat = 0 := Nat.le_zero.mp (UInt64.le_iff_toNat_le.mp hle)
    have hsize : t.size = 0 := by
      by_contra hne
      have hpos : 1 ≤ t.size.toNat := by
        rcases Nat.eq_zero_or_pos t.size.toNat with h0 | hpos
        · exact absurd (UInt64.toNat_inj.mp h0) hne
        · exact hpos
      have := one_le_sizeForLoad hm hpos
      omega
    split
    case isTrue =>
      have hcard := h.size_eq
      rw [hsize] at hcard
      exact .inr ⟨empty, h.rehashZero_spec hsize al fuel, hsmaller _
        ⟨empty_ok, (Multiset.card_eq_zero.mp hcard.symm).symm, .inr rfl, absurd rfl⟩⟩
    case isFalse => exact .inr ⟨t, rfl, hsmaller _ (h.resized_self hfits' (absurd rfl))⟩
  · rw [if_pos hzero]
    split
    case isTrue =>
      rcases h.rehashTo_spec al hm hle hfits' hfuel with hbad | ⟨t', ht', hre⟩
      · exact .inl hbad
      · exact .inr ⟨t', ht', hsmaller _ hre⟩
    case isFalse hcap =>
      exact .inr ⟨t, rfl, hsmaller _ (h.resized_self hfits' fun _ => not_not.mp hcap)⟩

theorem Ok.reserve_spec {t : Table γ K V} (h : t.Ok P) (al : Allocator P.sizeofValue)
    (hn : sizeForLoad n = .ok m) (hfits : P.Fits m.toNat) (hfuel : 2 ^ 64 ≤ fuel) :
    t.reserve P al fuel n = .error (.badAlloc, t) ∨
      ∃ t', t.reserve P al fuel n = .ok t' ∧ Resized P m t t' := by
  rw [reserve, hn, leaving_ok, ok_bind]
  exact h.rehash_spec al hfits hfuel

-- ---------------------------------------------------------------------------
-- `find`
-- ---------------------------------------------------------------------------

variable [DecidableEq K]

theorem empty_find (x : K) (hfuel : 1 ≤ fuel) :
    (empty : Table γ K V).find P fuel x = .ok none := by
  obtain ⟨fuel, rfl⟩ := Nat.exists_eq_succ_of_ne_zero (Nat.one_le_iff_ne_zero.mp hfuel)
  have hpos : ((empty : Table γ K V).arrays.positionFor (P.hashFor x)).toNat < 2 :=
    position_lt (P.hashFor x) le_rfl (by decide) (by decide : (sizeIndexFor 0).toNat = 64 - 1)
  have hgroup : (empty : Table γ K V).arrays.group
      ((empty : Table γ K V).arrays.positionFor (P.hashFor x)).toNat = .ok dummyGroup := by
    have hget : (List.replicate 2 (dummyGroup : γ))[
        ((empty : Table γ K V).arrays.positionFor (P.hashFor x)).toNat]? = some dummyGroup := by
      rw [List.getElem?_replicate, if_pos hpos]
    rw [Arrays.group,
      show (empty : Table γ K V).arrays.groups = List.replicate 2 dummyGroup from rfl,
      hget]
  have hmatch : setBits (matchHash (dummyGroup : γ) (P.hashFor x)).toNat = [] := by
    refine List.eq_nil_iff_forall_not_mem.mpr fun n hn => ?_
    rw [mem_setBits, Layout.testBit_matchHash, Bool.and_eq_true, decide_eq_true_iff,
      beq_iff_eq] at hn
    rw [Layout.byte_dummyGroup hn.1] at hn
    split at hn
    · exact reducedHash_ne_sentinel _ hn.2.symm
    · exact reducedHash_ne_available _ hn.2.symm
  have hover : isNotOverflowed (dummyGroup : γ) (P.hashFor x) = true := by
    rw [Layout.isNotOverflowed_eq, Layout.overflowed_dummyGroup (Nat.mod_lt _ (by decide))]
    rfl
  rw [find, Arrays.findFrom, hgroup, ok_bind, hmatch, Arrays.findInGroup, ok_bind, if_pos hover]

theorem Ok.find_spec {t : Table γ K V} (h : t.Ok P) (x : K) (hfuel : 2 ^ 64 ≤ fuel) :
    ∃ r, t.find P fuel x = .ok r ∧
      (∀ pos n, r = some (pos, n) → n < 15 ∧ ∃ v, t.arrays.slot pos n = some (x, v)) ∧
      (r = none → ∀ v, (x, v) ∉ t.contents) := by
  rcases h with rfl | ⟨level, h⟩
  · exact ⟨none, empty_find x (by omega), by simp, fun _ _ => Multiset.notMem_zero _⟩
  · exact h.arrays.find_spec x (h.arrays.groups_le hfuel)

theorem Ok.value_spec {t : Table γ K V} (h : t.Ok P) (x : K) (hfuel : 2 ^ 64 ≤ fuel) :
    ∃ r, t.value P fuel x = .ok r ∧ ∀ v, r = some v ↔ (x, v) ∈ t.contents := by
  obtain ⟨r, hr, hsome, hnone⟩ := h.find_spec x hfuel
  rw [value, hr, ok_bind]
  cases r with
  | none =>
    refine ⟨none, rfl, fun v => ?_⟩
    simp [hnone rfl v]
  | some loc =>
    obtain ⟨hn, v, he⟩ := hsome loc.1 loc.2 rfl
    have hmem : (x, v) ∈ t.contents := Arrays.mem_contents.mpr ⟨_, _, hn, he⟩
    refine ⟨some v, by simp only [Arrays.element_ok he, ok_bind], fun v' => ?_⟩
    constructor
    · rintro ⟨rfl⟩
      exact hmem
    · intro hmem'
      rw [h.unique hmem hmem']

-- ---------------------------------------------------------------------------
-- `emplace`
-- ---------------------------------------------------------------------------

inductive Emplaced (P : Policy K V) (t : Table γ K V) (e : K × V) :
    Table γ K V × (Nat × Nat) × Bool → Prop
  | found : (e.1, v) ∈ t.contents → t.arrays.slot loc.1 loc.2 = some (e.1, v) →
      Emplaced P t e (t, loc, false)
  | inserted : (∀ v, (e.1, v) ∉ t.contents) → t'.Ok P → t'.contents = e ::ₘ t.contents →
      t'.arrays.slot loc.1 loc.2 = some e → (t.Undrifted → t'.Undrifted) →
      Emplaced P t e (t', loc, true)

theorem Filled.emplace_in_place {t : Table γ K V} (h : t.Filled P level)
    (al : Allocator P.sizeofValue) (e : K × V) (hlt : t.size < t.ml) (hfuel : 2 ^ 64 ≤ fuel) :
    ∃ r, t.emplace P al fuel e = .ok r ∧ Emplaced P t e r ∧ r.1.Filled P level ∧
      r.1.ml = t.ml ∧ r.1.size.toNat ≤ t.size.toNat + 1 := by
  obtain ⟨r, hr, hsome, hnone⟩ := Ok.find_spec (.inr ⟨level, h⟩) e.1 hfuel
  rw [emplace, hr, leaving_ok, ok_bind]
  cases r with
  | some loc =>
    obtain ⟨hn, v, he⟩ := hsome loc.1 loc.2 rfl
    exact ⟨_, rfl, .found (Arrays.mem_contents.mpr ⟨_, _, hn, he⟩) he, h, rfl, Nat.le_succ _⟩
  | none =>
    obtain ⟨arrays, loc, hr, hfilled, hplaced⟩ := h.emplaced hlt (hnone rfl) hfuel
    dsimp only
    rw [if_pos hlt, hr, leaving_ok, ok_bind]
    have hcap : arrays.capacity = t.capacity :=
      UInt64.toNat_inj.mp (hfilled.arrays.capacity_eq.trans h.arrays.capacity_eq.symm)
    refine ⟨_, rfl, .inserted (hnone rfl) (.inr ⟨level, hfilled⟩) hplaced.contents hplaced.slot
      (fun hml => hml.trans (congrArg _ hcap.symm)), hfilled, rfl, ?_⟩
    rw [UInt64.toNat_add]
    exact Nat.mod_le _ _

/-- Memory can be missing only for a key that is not there; then the table is as
it was. -/
theorem Ok.emplace_spec {t : Table γ K V} (h : t.Ok P) (al : Allocator P.sizeofValue) (e : K × V)
    (hfuel : 2 ^ 64 ≤ fuel) :
    t.emplace P al fuel e = .error (.badAlloc, t) ∧ (∀ v, (e.1, v) ∉ t.contents) ∨
      ∃ r, t.emplace P al fuel e = .ok r ∧ Emplaced P t e r := by
  by_cases hlt : t.size < t.ml
  · rcases h with rfl | ⟨level, h⟩
    · exact absurd hlt (by simp [empty, initialMaxLoad])
    · obtain ⟨r, hr, hspec, -⟩ := h.emplace_in_place al e hlt hfuel
      exact .inr ⟨r, hr, hspec⟩
  · obtain ⟨r, hr, hsome, hnone⟩ := h.find_spec e.1 hfuel
    rw [emplace, hr, leaving_ok, ok_bind]
    cases r with
    | some loc =>
      obtain ⟨hn, v, he⟩ := hsome loc.1 loc.2 rfl
      exact .inr ⟨_, rfl, .found (Arrays.mem_contents.mpr ⟨_, _, hn, he⟩) he⟩
    | none =>
      dsimp only
      rw [if_neg hlt]
      rcases h.emplaceWithRehash_spec al (hnone rfl) hfuel with
        hbad | ⟨t', loc, hr, hok, hc, hs, hml⟩
      · refine .inl ⟨?_, hnone rfl⟩
        rw [hbad]
        rfl
      · rw [hr, ok_bind]
        exact .inr ⟨_, rfl, .inserted (hnone rfl) hok hc hs fun _ => hml⟩

-- ---------------------------------------------------------------------------
-- `erase`
-- ---------------------------------------------------------------------------

inductive Erased (P : Policy K V) (t : Table γ K V) (x : K) : Table γ K V × Nat → Prop
  | erased : t'.Ok P → t.contents = (x, v) ::ₘ t'.contents → Erased P t x (t', 1)
  | absent : (∀ v, (x, v) ∉ t.contents) → Erased P t x (t, 0)

theorem Ok.erase_spec {t : Table γ K V} (h : t.Ok P) (x : K) (hfuel : 2 ^ 64 ≤ fuel) :
    ∃ r, t.erase P fuel x = .ok r ∧ Erased P t x r := by
  obtain ⟨r, hr, hsome, hnone⟩ := h.find_spec x hfuel
  rw [erase, hr, leaving_ok, ok_bind]
  cases r with
  | none => exact ⟨_, rfl, .absent (hnone rfl)⟩
  | some loc =>
    obtain ⟨hn, v, he⟩ := hsome loc.1 loc.2 rfl
    rcases h with rfl | ⟨level, h⟩
    · cases he
    · obtain ⟨a₁, t', hset, hrecover, hfilled, hcontents⟩ := h.erased hn he
      simp only [hset, leaving_ok, ok_bind, hrecover]
      exact ⟨_, rfl, .erased (.inr ⟨level, hfilled⟩) hcontents⟩

end Table

end BenchHashmaps.Boost
