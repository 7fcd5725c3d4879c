import BenchHashmaps.Boost.Invariant

/-!
# Probing

What the two loops over the prober do with arrays in order: `find` reaches
every element and stops at the first group its key was never moved past, and
the insertion reaches a slot whenever there is one.
-/

namespace BenchHashmaps.Boost

open Lib
open Group15 (Layout)

variable {γ K V : Type} {P : Policy K V}

-- ---------------------------------------------------------------------------
-- The prober
-- ---------------------------------------------------------------------------

/-- The prober after `j` steps from the group of a key. -/
structure Prober.At (P : Policy K V) (level : Nat) (x : K) (j : Nat) (pb : Prober) : Prop where
  pos : pb.pos.toNat = P.probe level x j
  step : pb.step.toNat = j

theorem Prober.At.start {a : Arrays γ K V} (h : a.Geometry P level) (x : K) :
    Prober.At P level x 0 ⟨a.positionFor (P.hashFor x), 0⟩ where
  pos := by
    have hle := h.level_le
    rw [Arrays.positionFor, toNat_position _ h.one_le h.sizeIndex, Policy.probe,
      triangular_zero (P.home_lt (by omega) x)]
    rfl
  step := rfl

theorem Prober.At.next {pb : Prober} (h : pb.At P level x j) (hj : j < 2 ^ level) (hl : level ≤ 57)
    {mask : UInt64} (hmask : mask.toNat = 2 ^ level - 1) :
    (pb.next mask).1.At P level x (j + 1) ∧ ((pb.next mask).2 ↔ j + 1 < 2 ^ level) := by
  have hpow : 2 ^ level ≤ 2 ^ 57 := Nat.pow_le_pow_right (by decide) hl
  have hpos := h.pos ▸ P.probe_lt level x j
  have hstep : (pb.step + 1).toNat = j + 1 := by
    rw [UInt64.toNat_add, h.step, show (1 : UInt64).toNat = 1 from rfl]
    omega
  have hadd : (pb.pos + (pb.step + 1)).toNat = pb.pos.toNat + (j + 1) := by
    rw [UInt64.toNat_add, hstep]
    omega
  refine ⟨⟨?_, hstep⟩, ?_⟩
  · change ((pb.pos + (pb.step + 1)) &&& mask).toNat = _
    rw [UInt64.toNat_and, hmask, Nat.and_two_pow_sub_one_eq_mod, hadd, h.pos, Policy.probe,
      triangular_succ]
    rfl
  · change decide (pb.step + 1 ≤ mask) = true ↔ _
    rw [decide_eq_true_iff, UInt64.le_iff_toNat_le, hstep, hmask]
    omega

namespace Arrays

-- ---------------------------------------------------------------------------
-- Finding
-- ---------------------------------------------------------------------------

variable {a : Arrays γ K V}

theorem findInGroup_spec [DecidableEq K] {ns : List Nat} (x : K)
    (hns : ∀ n ∈ ns, ∃ e, a.slot pos n = some e) :
    ∃ r, a.findInGroup x pos ns = .ok r ∧
      (∀ n, r = some n → n ∈ ns ∧ ∃ v, a.slot pos n = some (x, v)) ∧
      (r = none → ∀ n ∈ ns, ∀ v, a.slot pos n ≠ some (x, v)) := by
  induction ns with
  | nil => exact ⟨none, rfl, by simp, by simp⟩
  | cons n ns ih =>
    obtain ⟨e, he⟩ := hns n List.mem_cons_self
    rw [findInGroup, element_ok he, ok_bind]
    split
    case isTrue heq =>
      refine ⟨some n, rfl, ?_, by simp⟩
      rintro _ ⟨rfl⟩
      exact ⟨List.mem_cons_self, e.2, by rw [he, heq]⟩
    case isFalse hne =>
      obtain ⟨r, hr, hsome, hnone⟩ := ih fun m hm => hns m (List.mem_cons_of_mem n hm)
      refine ⟨r, hr, ?_, ?_⟩
      · intro m hm
        obtain ⟨hmem, hv⟩ := hsome m hm
        exact ⟨List.mem_cons_of_mem n hmem, hv⟩
      · intro hr m hm v
        rcases List.mem_cons.mp hm with rfl | hm
        · rw [he]
          rintro ⟨rfl⟩
          exact hne rfl
        · exact hnone hr m hm v

variable [Group15 γ] [Layout γ]

/-- The slots whose byte matches hold elements, the searched key's among
them. -/
theorem Ok.mem_match (h : a.Ok P level) (hpos : pos < 2 ^ level) (hpg : a.groups[pos]? = some pg)
    (x : K) :
    (∀ n ∈ setBits (matchHash pg (P.hashFor x)).toNat, n < 15 ∧ ∃ e, a.slot pos n = some e) ∧
    ∀ n < 15, ∀ v, a.slot pos n = some (x, v) → n ∈ setBits (matchHash pg (P.hashFor x)).toNat := by
  constructor
  · intro n hn
    rw [mem_setBits, Layout.testBit_matchHash, Bool.and_eq_true, decide_eq_true_iff, beq_iff_eq,
      ← byteAt_eq hpg] at hn
    obtain ⟨hn, hbyte⟩ := hn
    refine ⟨hn, h.slot_of_byte hpos hn ?_ ?_⟩
    · exact hbyte ▸ reducedHash_ne_available _
    · exact hbyte ▸ reducedHash_ne_sentinel _
  · intro n hn v he
    rw [mem_setBits, Layout.testBit_matchHash, Bool.and_eq_true, decide_eq_true_iff, beq_iff_eq,
      ← byteAt_eq hpg]
    exact ⟨hn, h.byte_of_slot hn he⟩

theorem Ok.findFrom_spec [DecidableEq K] (h : a.Ok P level) (hpb : Prober.At P level x j pb)
    (hj : j < 2 ^ level)
    (hfuel : 2 ^ level ≤ j + fuel)
    (hpast : ∀ i < j, ∀ n < 15, ∀ v, a.slot (P.probe level x i) n ≠ some (x, v)) :
    ∃ r, a.findFrom x (P.hashFor x) fuel pb = .ok r ∧
      (∀ pos n, r = some (pos, n) → n < 15 ∧ ∃ v, a.slot pos n = some (x, v)) ∧
      (r = none → ∀ v, (x, v) ∉ a.contents) := by
  induction fuel generalizing j pb with
  | zero => omega
  | succ fuel ih =>
    have hpos := P.probe_lt level x j
    obtain ⟨pg, hg, hpg⟩ := h.group_ok hpos
    obtain ⟨hslots, hmatch⟩ := h.mem_match hpos hpg x
    obtain ⟨r, hr, hsome, hnone⟩ := findInGroup_spec x fun n hn => (hslots n hn).2
    rw [findFrom]
    simp only [hpb.pos, hg, ok_bind, hr]
    cases r with
    | some n =>
      refine ⟨_, rfl, ?_, by simp⟩
      rintro _ _ ⟨rfl⟩
      obtain ⟨hn, hv⟩ := hsome n rfl
      exact ⟨(hslots n hn).1, hv⟩
    | none =>
      have hpast : ∀ i ≤ j, ∀ n < 15, ∀ v, a.slot (P.probe level x i) n ≠ some (x, v) := by
        intro i hi n hn v he
        rcases hi.eq_or_lt with rfl | hlt
        · exact hnone rfl n (hmatch n hn v he) v he
        · exact hpast i hlt n hn v he
      -- an element left out so far lies behind an unmarked group or behind all groups
      have habsent : (∀ j' < 2 ^ level, j' ≤ j ∨ ∃ i < j',
          a.overflowedAt (P.probe level x i) (P.mark x) = false) → ∀ v, (x, v) ∉ a.contents := by
        intro hstop v hv
        obtain ⟨pos, n, hn, he⟩ := mem_contents.mp hv
        obtain ⟨j', hj', rfl, hmarked⟩ := h.reached hn he
        rcases hstop j' hj' with hle | ⟨i, hi, hfalse⟩
        · exact hpast j' hle n hn v he
        · exact Bool.false_ne_true (hfalse.symm.trans (hmarked i hi))
      dsimp only
      split
      case isTrue hstop =>
        refine ⟨none, rfl, by simp, fun _ => habsent fun j' _ => ?_⟩
        rw [Layout.isNotOverflowed_eq, Bool.not_eq_true'] at hstop
        rcases Nat.lt_or_ge j j' with hlt | hge
        · exact .inr ⟨j, hlt, (overflowedAt_eq hpg _).trans hstop⟩
        · exact .inl hge
      case isFalse =>
        obtain ⟨hnext, hmore⟩ := hpb.next hj h.level_le h.sizeMask
        split
        case isTrue hlt =>
          exact ih hnext (hmore.mp hlt) (by omega) fun i hi => hpast i (Nat.le_of_lt_succ hi)
        case isFalse hge =>
          refine ⟨none, rfl, by simp, fun _ => habsent fun j' hj' => .inl ?_⟩
          rw [hmore] at hge
          omega

theorem Ok.find_spec [DecidableEq K] (h : a.Ok P level) (x : K) (hfuel : 2 ^ level ≤ fuel) :
    ∃ r, a.findFrom x (P.hashFor x) fuel ⟨a.positionFor (P.hashFor x), 0⟩ = .ok r ∧
      (∀ pos n, r = some (pos, n) → n < 15 ∧ ∃ v, a.slot pos n = some (x, v)) ∧
      (r = none → ∀ v, (x, v) ∉ a.contents) :=
  h.findFrom_spec (Prober.At.start h.toGeometry x) (Nat.two_pow_pos level) (by omega)
    fun i hi => absurd hi (Nat.not_lt_zero i)

-- ---------------------------------------------------------------------------
-- Inserting
-- ---------------------------------------------------------------------------

/-- With fewer elements than slots, some group on the way of every key has an
available slot. -/
theorem Ok.exists_available (h : a.Ok P level) (hcard : a.contents.card < slots level) (x : K) :
    ∃ j < 2 ^ level, ∃ n < 15, a.byteAt (P.probe level x j) n = available := by
  obtain ⟨es, hes, hlen⟩ := h.elements
  rw [contents, hes, Option.getD_some, ← hlen] at hcard
  obtain ⟨i, hi⟩ := exists_empty hcard
  have hlt := (List.getElem?_eq_some_iff.mp hi).1
  have hslots := slots_succ level
  have hpos : i / 15 < 2 ^ level := by omega
  have hn : i % 15 < 15 := Nat.mod_lt _ (by decide)
  obtain ⟨j, hj, hprobe⟩ := exists_triangular (P.home level x) hpos
  refine ⟨j, hj, i % 15, hn, ?_⟩
  have hslot : a.slot (i / 15) (i % 15) = none := by
    rw [slot, hes, Option.getD_some, Nat.div_add_mod', hi]
    rfl
  rw [Policy.probe, hprobe, h.byte_slot hpos hn (by rw [Nat.div_add_mod']; omega), hslot]
  rfl

structure Placed (P : Policy K V) (level : Nat) (a : Arrays γ K V) (e : K × V)
    (r : Arrays γ K V × Nat × Nat) : Prop where
  ok : r.1.Ok P level
  contents : r.1.contents = e ::ₘ a.contents
  lt : r.2.2 < 15
  slot : r.1.slot r.2.1 r.2.2 = some e
  kept : n < 15 → a.slot pos n = some e' → r.1.slot pos n = some e'

theorem Ok.placed (h : a.Ok P level) (hnew : ∀ e' ∈ a.contents, e'.1 ≠ e.1) (hj : j < 2 ^ level)
    (hmarked : ∀ i < j, a.overflowedAt (P.probe level e.1 i) (P.mark e.1))
    (hpg : a.groups[P.probe level e.1 j]? = some pg) (hn : n < 15)
    (hav : Layout.byte pg n = available) :
    ∃ a₁, a.setElement (P.probe level e.1 j) n (some e) = .ok a₁ ∧
      Placed P level a e (a₁.setGroup (P.probe level e.1 j) (Group15.set pg n (P.hashFor e.1)),
        P.probe level e.1 j, n) := by
  have hpos := P.probe_lt level e.1 j
  obtain ⟨hlt, hslot⟩ := h.slot_of_available hpos hn ((byteAt_eq hpg n).trans hav)
  obtain ⟨a₁, hset, hgeo, ⟨es, hes, hes₁⟩, -, hr⟩ :=
    h.toGeometry.rewrite hlt hn hpg (some e) (Group15.set pg n (P.hashFor e.1))
      (reducedHash (P.hashFor e.1))
      (fun n' hn' => Layout.byte_set hn hn') (fun j hj => Layout.overflowed_set hn hj)
  refine ⟨a₁, hset, h.place hr hgeo hpos hn hlt hnew ⟨j, hj, rfl, hmarked⟩, ?_, hn, ?_, ?_⟩
  · have hfree : es[P.probe level e.1 j * 15 + n]? = some none := by
      rw [Arrays.slot, hes, Option.getD_some] at hslot
      have hlen : es.length = slots level := by
        obtain ⟨es', hes', hlen⟩ := h.elements
        cases hes.symm.trans hes'
        exact hlen
      rw [List.getElem?_eq_getElem (hlen ▸ hlt), Option.join_some] at hslot
      rw [List.getElem?_eq_getElem (hlen ▸ hlt), hslot]
    change Lib.contents (a₁.elements.getD []) = _
    rw [hes₁, Option.getD_some, contents_set_some hfree, Arrays.contents, hes, Option.getD_some]
  · rw [hr.slot_eq hn, if_pos ⟨rfl, rfl⟩]
  · intro n' pos' e' hn' he'
    rw [hr.slot_eq hn']
    split
    case isTrue heq =>
      rw [heq.1, heq.2, hslot] at he'
      cases he'
    case isFalse => exact he'

theorem Ok.emplaceFrom_spec (h : a.Ok P level) (hpb : Prober.At P level e.1 j pb)
    (hfuel : 2 ^ level ≤ j + fuel) (hnew : ∀ e' ∈ a.contents, e'.1 ≠ e.1)
    (hmarked : ∀ i < j, a.overflowedAt (P.probe level e.1 i) (P.mark e.1))
    (hav : ∃ j' < 2 ^ level, j ≤ j' ∧ ∃ n < 15, a.byteAt (P.probe level e.1 j') n = available) :
    ∃ r, nosizeUncheckedEmplaceAt (P.hashFor e.1) e fuel a pb = .ok r ∧ Placed P level a e r := by
  obtain ⟨j', hj', hle, n', hn', hav⟩ := hav
  induction fuel generalizing a j pb with
  | zero => omega
  | succ fuel ih =>
    have hj : j < 2 ^ level := Nat.lt_of_le_of_lt hle hj'
    obtain ⟨pg, hg, hpg⟩ := h.group_ok (P.probe_lt level e.1 j)
    rw [nosizeUncheckedEmplaceAt]
    simp only [hpb.pos, hg, ok_bind]
    split
    case isTrue hmask =>
      have hne : (matchAvailable pg).toNat ≠ 0 := fun h0 => hmask (UInt32.toNat_inj.mp h0)
      have hbit := testBit_countrZero hne
      rw [Layout.testBit_matchAvailable, Bool.and_eq_true, decide_eq_true_iff, beq_iff_eq] at hbit
      obtain ⟨a₁, hset, hplaced⟩ := h.placed hnew hj hmarked hpg hbit.1 hbit.2
      rw [hset, ok_bind]
      exact ⟨_, rfl, hplaced⟩
    case isFalse hmask =>
      have hzero : matchAvailable pg = 0 := Decidable.not_not.mp hmask
      have hne : j ≠ j' := by
        rintro rfl
        have hbit : (matchAvailable pg).toNat.testBit n' = true := by
          rw [Layout.testBit_matchAvailable, Bool.and_eq_true, decide_eq_true_iff, beq_iff_eq,
            ← byteAt_eq hpg]
          exact ⟨hn', hav⟩
        rw [hzero, UInt32.toNat_zero, Nat.zero_testBit] at hbit
        cases hbit
      obtain ⟨r, hr, hplaced⟩ := ih (h.mark hpg (P.hashFor e.1))
        (hpb.next hj h.level_le h.sizeMask).1 (by omega) hnew
        (fun i hi => by
          rcases (Nat.le_of_lt_succ hi).eq_or_lt with rfl | hlt
          · exact overflowedAt_markOverflow hpg e.1
          · exact overflowedAt_mono hpg _ (hmarked i hlt))
        (by omega) (by rw [byteAt_markOverflow hpg _ _ hn', hav])
      exact ⟨r, hr, { hplaced with }⟩

theorem Ok.emplaceAt_spec (h : a.Ok P level) (hnew : ∀ e' ∈ a.contents, e'.1 ≠ e.1)
    (hcard : a.contents.card < slots level) (hfuel : 2 ^ level ≤ fuel) :
    ∃ r, nosizeUncheckedEmplaceAt (P.hashFor e.1) e fuel a
        ⟨a.positionFor (P.hashFor e.1), 0⟩ = .ok r ∧ Placed P level a e r := by
  obtain ⟨j, hj, hav⟩ := h.exists_available hcard e.1
  exact h.emplaceFrom_spec (Prober.At.start h.toGeometry e.1) (by omega) hnew
    (fun i hi => absurd hi (Nat.not_lt_zero i)) ⟨j, hj, Nat.zero_le j, hav⟩

end Arrays

end BenchHashmaps.Boost
