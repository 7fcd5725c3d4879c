import BenchHashmaps.Boost.Probe

/-!
# New arrays

Allocating arrays, moving all elements into them and wiping them in place.
-/

namespace BenchHashmaps.Boost

open Lib
open Group15 (Layout)

variable {γ K V : Type} {P : Policy K V}

-- ---------------------------------------------------------------------------
-- The block
-- ---------------------------------------------------------------------------

/-- The size in bytes of arrays for `n` slots does not wrap. -/
def Policy.Fits (P : Policy K V) (n : Nat) : Prop :=
  (15 * P.sizeofValue.toNat + 16) * 2 ^ levelFor n + 16 < 2 ^ 64

theorem Policy.one_le_sizeof (P : Policy K V) : 1 ≤ P.sizeofValue.toNat :=
  UInt64.lt_iff_toNat_lt.mp P.sizeofValue_pos

theorem Policy.sizeof_lt (P : Policy K V) : P.sizeofValue.toNat < 2 ^ 32 :=
  UInt64.lt_iff_toNat_lt.mp P.sizeofValue_lt

theorem Policy.Fits.level_le (h : P.Fits n) : levelFor n ≤ 59 := by
  by_contra hlt
  have hpow : 2 ^ 60 ≤ 2 ^ levelFor n := Nat.pow_le_pow_right (by decide) (by omega)
  have hs := P.one_le_sizeof
  have hmul : 31 * 2 ^ levelFor n ≤ (15 * P.sizeofValue.toNat + 16) * 2 ^ levelFor n :=
    Nat.mul_le_mul_right _ (by omega)
  rw [Policy.Fits] at h
  omega

theorem Policy.fits_next (hbytes : P.sizeofValue.toNat * slots level + 16 * 2 ^ level < 2 ^ 62)
    (h : levelFor n ≤ level + 1) : P.Fits n := by
  have hs := P.sizeof_lt
  have hpow : 2 ^ levelFor n ≤ 2 * 2 ^ level := by
    rw [Nat.mul_comm, ← pow_succ]
    exact Nat.pow_le_pow_right (by decide) h
  have hmul : P.sizeofValue.toNat * slots level + P.sizeofValue.toNat =
      15 * P.sizeofValue.toNat * 2 ^ level := by
    rw [← Nat.mul_succ, Nat.succ_eq_add_one, slots_succ]
    ring
  have hle := Nat.mul_le_mul_left (15 * P.sizeofValue.toNat + 16) hpow
  have hexp : (15 * P.sizeofValue.toNat + 16) * (2 * 2 ^ level) =
      2 * (15 * P.sizeofValue.toNat * 2 ^ level) + 2 * (16 * 2 ^ level) := by ring
  rw [Policy.Fits]
  omega

theorem Policy.fits_small (h : levelFor n ≤ 1) : P.Fits n := by
  have hs := P.sizeof_lt
  have hone : levelFor n = 1 := Nat.le_antisymm h (one_le_levelFor n)
  rw [Policy.Fits, hone]
  omega

namespace Arrays

theorem le_bufferSize {g : UInt64} (hg : g.toNat = 2 ^ level)
    (hfit : (15 * P.sizeofValue.toNat + 16) * 2 ^ level + 16 < 2 ^ 64) :
    P.sizeofValue.toNat * slots level + 16 * 2 ^ level ≤
      (bufferSize P.sizeofValue g).toNat * P.sizeofValue.toNat := by
  have hone : (1 : UInt64).toNat = 1 := rfl
  have hs := P.one_le_sizeof
  have hexp : (15 * P.sizeofValue.toNat + 16) * 2 ^ level =
      P.sizeofValue.toNat * slots level + P.sizeofValue.toNat + 16 * 2 ^ level := by
    rw [← Nat.mul_succ, Nat.succ_eq_add_one, slots_succ]
    ring
  rw [hexp] at hfit
  have hslots : slots level ≤ P.sizeofValue.toNat * slots level := Nat.le_mul_of_pos_left _ hs
  have hg15 : (g * 15).toNat = slots level + 1 := by
    rw [UInt64.toNat_mul, hg, show (15 : UInt64).toNat = 15 from rfl, Nat.mul_comm, ← slots_succ]
    omega
  have hcap : (g * 15 - 1).toNat = slots level := by
    rw [UInt64.toNat_sub_of_le _ _ (UInt64.le_iff_toNat_le.mpr (by omega)), hg15]
    rfl
  have hgroups : (16 * (g + 1)).toNat = 16 * 2 ^ level + 16 := by
    rw [UInt64.toNat_mul, UInt64.toNat_add, hg, hone, show (16 : UInt64).toNat = 16 from rfl]
    omega
  have hsum : (P.sizeofValue * (g * 15 - 1) + 16 * (g + 1)).toNat =
      P.sizeofValue.toNat * slots level + (16 * 2 ^ level + 16) := by
    rw [UInt64.toNat_add, hgroups, UInt64.toNat_mul, hcap]
    omega
  have hbytes : (P.sizeofValue * (g * 15 - 1) + 16 * (g + 1) - 1).toNat =
      P.sizeofValue.toNat * slots level + (16 * 2 ^ level + 15) := by
    rw [UInt64.toNat_sub_of_le _ _ (UInt64.le_iff_toNat_le.mpr (by omega)), hsum, hone]
    omega
  have hup : (P.sizeofValue * (g * 15 - 1) + 16 * (g + 1) - 1 + P.sizeofValue).toNat =
      P.sizeofValue.toNat * slots level + (16 * 2 ^ level + 15) + P.sizeofValue.toNat := by
    rw [UInt64.toNat_add, hbytes]
    omega
  have hsize : (bufferSize P.sizeofValue g).toNat =
      (P.sizeofValue.toNat * slots level + (16 * 2 ^ level + 14) + P.sizeofValue.toNat) /
        P.sizeofValue.toNat := by
    rw [bufferSize, UInt64.toNat_div,
      UInt64.toNat_sub_of_le _ _ (UInt64.le_iff_toNat_le.mpr (by omega)), hup, hone]
    congr 1
    omega
  rw [hsize]
  have hdiv := Nat.div_add_mod' (P.sizeofValue.toNat * slots level + (16 * 2 ^ level + 14) +
    P.sizeofValue.toNat) P.sizeofValue.toNat
  have hmod := Nat.mod_lt (P.sizeofValue.toNat * slots level + (16 * 2 ^ level + 14) +
    P.sizeofValue.toNat) hs
  omega

-- ---------------------------------------------------------------------------
-- Arrays without elements
-- ---------------------------------------------------------------------------

theorem contents_of_empty {a : Arrays γ K V} (h : ∀ pos, ∀ n < 15, a.slot pos n = none) :
    a.contents = 0 := by
  refine Multiset.eq_zero_of_forall_notMem fun e he => ?_
  obtain ⟨pos, n, hn, he⟩ := mem_contents.mp he
  rw [h pos n hn] at he
  cases he

theorem Geometry.destroy_spec {b : Arrays γ K V} (hb : b.Geometry P level) {walk : List (Nat × Nat)}
    (hwalk : ∀ s ∈ walk, s.2 < 15 ∧ s.1 * 15 + s.2 < slots level) :
    ∃ b', walk.foldlM (fun b s => b.setElement s.1 s.2 none) b = .ok b' ∧ b'.Geometry P level ∧
      b'.groups = b.groups ∧
      ∀ pos n, n < 15 → b'.slot pos n = if (pos, n) ∈ walk then none else b.slot pos n := by
  induction walk generalizing b with
  | nil => exact ⟨b, rfl, hb, rfl, by simp⟩
  | cons s walk ih =>
    obtain ⟨hn, hlt⟩ := hwalk s List.mem_cons_self
    obtain ⟨b₁, hset, hb₁, hgroups, -, hslot⟩ := hb.setElement_ok hlt hn none
    obtain ⟨b', hfold, hb', hgroups', hslot'⟩ :=
      ih hb₁ fun s' hs' => hwalk s' (List.mem_cons_of_mem s hs')
    refine ⟨b', ?_, hb', hgroups'.trans hgroups, fun pos n hn => ?_⟩
    · rw [List.foldlM_cons, hset, ok_bind, hfold]
    · rw [hslot' pos n hn, hslot pos n hn]
      simp only [List.mem_cons, Prod.ext_iff]
      split
      · simp_all
      · split <;> simp_all

variable [Group15 γ]

/-- Groups as `initialize_groups` and `set_sentinel` leave them. -/
def blankGroups (γ : Type) [Group15 γ] (size : Nat) : List γ :=
  (List.replicate size initialized).modify (size - 1) setSentinel

theorem getElem?_blankGroups (hpos : pos < size) : (blankGroups γ size)[pos]? =
    some (if pos = size - 1 then setSentinel initialized else initialized) := by
  have hcomm : size - 1 = pos ↔ pos = size - 1 := eq_comm
  rw [blankGroups, List.getElem?_modify, List.getElem?_replicate, if_pos hpos]
  simp only [hcomm, Option.map_eq_map, Option.map_some]

theorem elementSlots_nodup (a : Arrays γ K V) : a.elementSlots.Nodup := by
  rw [elementSlots]
  split
  case isTrue =>
    refine List.nodup_flatMap.mpr ⟨fun p _ => ?_, ?_⟩
    · exact (setBits_nodup _).map fun m n heq => (Prod.mk.inj heq).2
    · have hpos : (a.groups.zipIdx.map Prod.snd).Nodup := by
        rw [List.zipIdx_map_snd]
        exact List.nodup_range'
      refine (List.pairwise_map.mp hpos).imp fun hne s hs hs' => hne ?_
      obtain ⟨n, -, rfl⟩ := List.mem_map.mp hs
      obtain ⟨n', -, heq⟩ := List.mem_map.mp hs'
      exact (Prod.mk.inj heq).1.symm
  case isFalse => exact List.nodup_nil

variable [Layout γ]

theorem Ok.blank {a : Arrays γ K V} (hg : a.Geometry P level)
    (hgroups : a.groups = blankGroups γ (2 ^ level))
    (hslots : ∀ pos, ∀ n < 15, a.slot pos n = none) : a.Ok P level := by
  have hbyte : ∀ pos < 2 ^ level, ∀ n < 15, a.byteAt pos n =
      if pos = 2 ^ level - 1 ∧ n = 14 then sentinel else available := by
    intro pos hpos n hn
    rw [byteAt, hgroups, getElem?_blankGroups hpos, Option.elim_some]
    by_cases hlast : pos = 2 ^ level - 1
    · rw [if_pos hlast, Layout.byte_setSentinel hn, Layout.byte_initialized]
      simp only [hlast, true_and]
      rfl
    · rw [if_neg hlast, if_neg fun h => hlast h.1, Layout.byte_initialized]
  have hone := Nat.two_pow_pos level
  refine { hg with
    byte_slot := fun {pos n} hpos hn hlast => ?_
    byte_sentinel := ?_
    reached := fun hn he => ?_
    unique := fun hn _ he _ _ => ?_ }
  · rw [hbyte pos hpos n hn, hslots pos n hn, if_neg fun h => hlast ((sentinel_slot hpos hn).mpr h)]
    rfl
  · rw [hbyte _ (by omega) _ (by decide), if_pos ⟨rfl, rfl⟩]
  · rw [hslots _ _ hn] at he
    cases he
  · rw [hslots _ _ hn] at he
    cases he

/-- New arrays for a capacity, unless there is no memory for them. -/
theorem new_spec (al : Allocator P.sizeofValue) (hn : n ≠ 0) (hfit : P.Fits n.toNat) :
    (new P al n : Except Exit (Arrays γ K V)) = .error .badAlloc ∨
      ∃ a : Arrays γ K V, new P al n = .ok a ∧ a.Ok P (levelFor n.toNat) ∧ a.contents = 0 := by
  have hpos := one_le_levelFor n.toNat
  have hg := toNat_groupsSize hpos (levelFor_le_61 n) (toNat_sizeIndexFor n)
  have hroom := le_bufferSize hg hfit
  have hone := Nat.two_pow_pos (levelFor n.toNat)
  rw [new]
  simp only [if_neg hn]
  cases hal : al.allocates (bufferSize P.sizeofValue (groupsSize (sizeIndexFor n)))
  case false => exact .inl rfl
  case true =>
    have hslots : 2 ^ levelFor n.toNat * 15 - 1 = slots (levelFor n.toNat) := by
      rw [slots, Nat.mul_comm]
    have hmask : (groupsSize (sizeIndexFor n) - 1).toNat = 2 ^ levelFor n.toNat - 1 := by
      rw [UInt64.toNat_sub_of_le _ _ (UInt64.le_iff_toNat_le.mpr (by rw [hg]; exact hone)), hg]
      rfl
    right
    simp only [Bool.not_true, Bool.false_eq_true, if_false, hg, hslots, if_neg (not_lt.mpr hroom)]
    have hempty : ∀ pos, ∀ n' < 15,
        slot ⟨sizeIndexFor n, groupsSize (sizeIndexFor n) - 1, blankGroups γ (2 ^ levelFor n.toNat),
          some (List.replicate (slots (levelFor n.toNat)) (none : Option (K × V)))⟩ pos n' =
          none := by
      intro pos n' _
      rw [slot, Option.getD_some, List.getElem?_replicate]
      split <;> rfl
    refine ⟨_, rfl, Ok.blank ?_ rfl hempty, contents_of_empty hempty⟩
    exact {
      one_le := hpos
      bytes := hroom.trans_lt (al.addressable hal)
      sizeIndex := toNat_sizeIndexFor n
      sizeMask := hmask
      groups_length := by simp
      elements := ⟨_, rfl, List.length_replicate⟩ }

-- ---------------------------------------------------------------------------
-- The walk over all elements
-- ---------------------------------------------------------------------------

theorem testBit_matchReallyOccupied (a : Arrays γ K V) (pg : γ) (pos n : Nat) :
    (a.matchReallyOccupied pg pos).toNat.testBit n ↔
      n < 15 ∧ Layout.byte pg n ≠ available ∧ ¬(pos = a.groupsSizeMask.toNat ∧ n = 14) := by
  have hmask : ∀ n < 15, (~~~((1 : UInt32) <<< 14)).toNat.testBit n = decide (n ≠ 14) := by decide
  have hall : ∀ n < 15, (~~~((0 : UInt32) <<< 14)).toNat.testBit n = true := by decide
  rw [matchReallyOccupied, UInt32.toNat_and, Nat.testBit_and, Layout.testBit_matchOccupied,
    Bool.and_eq_true, Bool.and_eq_true, decide_eq_true_iff, bne_iff_ne, and_assoc]
  refine and_congr_right fun hn => and_congr_right fun _ => ?_
  by_cases hpos : pos = a.groupsSizeMask.toNat
  · rw [if_pos hpos, hmask n hn]
    simp [hpos]
  · rw [if_neg hpos, hall n hn]
    simp [hpos]

theorem mem_elementSlots_iff (a : Arrays γ K V) (s : Nat × Nat) :
    s ∈ a.elementSlots ↔ a.elements.isSome ∧ ∃ pg, a.groups[s.1]? = some pg ∧ s.2 < 15 ∧
      Layout.byte pg s.2 ≠ available ∧ ¬(s.1 = a.groupsSizeMask.toNat ∧ s.2 = 14) := by
  obtain ⟨pos, n⟩ := s
  rw [elementSlots]
  split
  case isTrue hes =>
    rw [List.mem_flatMap]
    simp only [hes, true_and]
    constructor
    · rintro ⟨⟨pg, pos'⟩, hpg, hn⟩
      obtain ⟨n', hn', heq⟩ := List.mem_map.mp hn
      cases heq
      rw [mem_setBits, testBit_matchReallyOccupied] at hn'
      exact ⟨pg, List.mem_zipIdx_iff_getElem?.mp hpg, hn'⟩
    · rintro ⟨pg, hpg, hn⟩
      refine ⟨(pg, pos), List.mem_zipIdx_iff_getElem?.mpr hpg, List.mem_map.mpr ⟨n, ?_, rfl⟩⟩
      rwa [mem_setBits, testBit_matchReallyOccupied]
  case isFalse hes => simp [hes]

theorem Ok.mem_elementSlots {a : Arrays γ K V} (h : a.Ok P level) {s : Nat × Nat} :
    s ∈ a.elementSlots ↔ s.2 < 15 ∧ ∃ e, a.slot s.1 s.2 = some e := by
  obtain ⟨pos, n⟩ := s
  obtain ⟨es, hes, -⟩ := h.elements
  rw [mem_elementSlots_iff, hes, Option.isSome_some, h.sizeMask]
  simp only [true_and]
  constructor
  · rintro ⟨pg, hpg, hn, hav, hsent⟩
    have hpos : pos < 2 ^ level := h.groups_length ▸ (List.getElem?_eq_some_iff.mp hpg).1
    refine ⟨hn, ?_⟩
    cases hslot : a.slot pos n with
    | none =>
      have hbyte := h.byte_slot hpos hn (fun hlast => hsent ((sentinel_slot hpos hn).mp hlast))
      rw [hslot, byteAt_eq hpg] at hbyte
      exact absurd hbyte hav
    | some e => exact ⟨e, rfl⟩
  · rintro ⟨hn, e, he⟩
    have hpos := h.pos_lt he
    obtain ⟨pg, -, hpg⟩ := h.group_ok hpos
    refine ⟨pg, hpg, hn, ?_, ?_⟩
    · rw [← byteAt_eq hpg, h.byte_of_slot hn he]
      exact reducedHash_ne_available _
    · intro hlast
      exact Nat.ne_of_lt (h.slot_lt he) ((sentinel_slot hpos hn).mpr hlast)

theorem Ok.filterMap_elementSlots {a : Arrays γ K V} (h : a.Ok P level) :
    ↑(a.elementSlots.filterMap fun s => a.slot s.1 s.2) = a.contents := by
  have hinj : ∀ s ∈ a.elementSlots, ∀ s' ∈ a.elementSlots,
      s.1 * 15 + s.2 = s'.1 * 15 + s'.2 → s = s' := by
    intro s hs s' hs' heq
    have hlt := (h.mem_elementSlots.mp hs).1
    have hlt' := (h.mem_elementSlots.mp hs').1
    exact Prod.ext (by omega) (by omega)
  have hnodup : (a.elementSlots.map fun s => s.1 * 15 + s.2).Nodup :=
    (elementSlots_nodup a).map_on hinj
  rw [contents, ← contents_eq_of_walk hnodup, List.filterMap_map]
  · rfl
  · intro i
    rw [List.mem_map]
    constructor
    · rintro ⟨s, hs, rfl⟩
      obtain ⟨-, e, he⟩ := h.mem_elementSlots.mp hs
      exact ⟨e, Option.join_eq_some_iff.mp he⟩
    · rintro ⟨e, he⟩
      refine ⟨(i / 15, i % 15), h.mem_elementSlots.mpr ⟨Nat.mod_lt _ (by decide), e, ?_⟩,
        Nat.div_add_mod' i 15⟩
      rw [slot, Nat.div_add_mod', he]
      rfl

theorem Ok.length_elementSlots {a : Arrays γ K V} (h : a.Ok P level) :
    a.elementSlots.length = a.contents.card := by
  rw [← h.filterMap_elementSlots, Multiset.coe_card]
  refine (List.filterMap_length_eq_length.mpr fun s hs => ?_).symm
  obtain ⟨-, e, he⟩ := h.mem_elementSlots.mp hs
  rw [he]
  rfl

-- ---------------------------------------------------------------------------
-- Moving all elements
-- ---------------------------------------------------------------------------

theorem Ok.transfer_spec {a b : Arrays γ K V} (h : a.Ok P level) (hb : b.Ok P level')
    {walk : List (Nat × Nat)} (hnodup : walk.Nodup)
    (hwalk : ∀ s ∈ walk, s.2 < 15 ∧ ∃ e, a.slot s.1 s.2 = some e)
    (hnew : ∀ s ∈ walk, ∀ e, a.slot s.1 s.2 = some e → ∀ e' ∈ b.contents, e'.1 ≠ e.1)
    (hroom : b.contents.card + walk.length ≤ slots level') (hfuel : 2 ^ level' ≤ fuel) :
    ∃ b', walk.foldlM (a.transferElement P fuel) b = .ok b' ∧ b'.Ok P level' ∧
      b'.contents = b.contents + ↑(walk.filterMap fun s => a.slot s.1 s.2) ∧
      ∀ pos n e, n < 15 → b.slot pos n = some e → b'.slot pos n = some e := by
  induction walk generalizing b with
  | nil => exact ⟨b, rfl, hb, (add_zero _).symm, fun _ _ _ _ he => he⟩
  | cons s walk ih =>
    obtain ⟨hn, e, he⟩ := hwalk s List.mem_cons_self
    rw [List.length_cons] at hroom
    obtain ⟨⟨b₁, _⟩, hr, hplaced⟩ :=
      hb.emplaceAt_spec (hnew s List.mem_cons_self e he) (by omega) hfuel
    have hstep : a.transferElement P fuel b s = .ok b₁ := by
      rw [transferElement, element_ok he, ok_bind]
      simp only [hr, ok_bind]
    have hcontents : b₁.contents = e ::ₘ b.contents := hplaced.contents
    obtain ⟨b', hfold, hok, hall, hkept⟩ := ih hplaced.ok hnodup.of_cons
      (fun s' hs' => hwalk s' (List.mem_cons_of_mem s hs'))
      (fun s' hs' e' he' e'' he'' => by
        rw [hcontents] at he''
        rcases Multiset.mem_cons.mp he'' with rfl | hmem
        · -- two elements of one key would be in one slot
          intro hkey
          have hn' := (hwalk s' (List.mem_cons_of_mem s hs')).1
          obtain ⟨h₁, h₂⟩ := h.unique hn hn' he he' hkey
          exact (List.nodup_cons.mp hnodup).1 (Prod.ext h₁ h₂ ▸ hs')
        · exact hnew s' (List.mem_cons_of_mem s hs') e' he' e'' hmem)
      (by rw [hcontents, Multiset.card_cons]; omega)
    refine ⟨b', ?_, hok, ?_, fun pos n e' hn' he' => hkept pos n e' hn' (hplaced.kept hn' he')⟩
    · rw [List.foldlM_cons, hstep, ok_bind, hfold]
    · have hcons : (s :: walk).filterMap (fun s => a.slot s.1 s.2) =
          e :: walk.filterMap fun s => a.slot s.1 s.2 := by simp only [List.filterMap_cons, he]
      rw [hall, hcontents, hcons, ← Multiset.cons_coe, Multiset.add_cons, Multiset.cons_add]

theorem Ok.transferAll_spec {a b : Arrays γ K V} (h : a.Ok P level) (hb : b.Ok P level')
    (hnew : ∀ e ∈ a.contents, ∀ e' ∈ b.contents, e'.1 ≠ e.1)
    (hroom : b.contents.card + a.contents.card ≤ slots level') (hfuel : 2 ^ level' ≤ fuel) :
    ∃ b', a.elementSlots.foldlM (a.transferElement P fuel) b = .ok b' ∧ b'.Ok P level' ∧
      b'.contents = b.contents + a.contents ∧
      ∀ pos n e, n < 15 → b.slot pos n = some e → b'.slot pos n = some e := by
  obtain ⟨b', hfold, hok, hall, hkept⟩ := h.transfer_spec hb (elementSlots_nodup a)
    (fun s hs => h.mem_elementSlots.mp hs)
    (fun s hs e he => hnew e (mem_contents.mpr ⟨_, _, (h.mem_elementSlots.mp hs).1, he⟩))
    (by rwa [h.length_elementSlots]) hfuel
  exact ⟨b', hfold, hok, by rw [hall, h.filterMap_elementSlots], hkept⟩

-- ---------------------------------------------------------------------------
-- Wiping
-- ---------------------------------------------------------------------------

theorem Ok.clear_spec {a : Arrays γ K V} (h : a.Ok P level) :
    ∃ a', a.clear = .ok a' ∧ a'.Ok P level ∧ a'.contents = 0 := by
  have hwalk : ∀ s ∈ a.elementSlots, s.2 < 15 ∧ s.1 * 15 + s.2 < slots level := by
    intro s hs
    obtain ⟨hn, e, he⟩ := h.mem_elementSlots.mp hs
    exact ⟨hn, h.slot_lt he⟩
  obtain ⟨b, hfold, hb, hgroups, hslot⟩ := h.toGeometry.destroy_spec hwalk
  have hempty : ∀ pos n, n < 15 → b.slot pos n = none := by
    intro pos n hn
    rw [hslot pos n hn]
    split
    case isTrue => rfl
    case isFalse hout =>
      cases he : a.slot pos n with
      | none => rfl
      | some e => exact absurd ((h.mem_elementSlots (s := (pos, n))).mpr ⟨hn, e, he⟩) hout
  have hblank :
      (b.groups.map fun _ => (initialized : γ)).modify a.groupsSizeMask.toNat setSentinel =
        blankGroups γ (2 ^ level) := by
    rw [List.map_const', hgroups, h.groups_length, h.sizeMask, blankGroups]
  let a' : Arrays γ K V := { b with groups := blankGroups γ (2 ^ level) }
  have hclear : a.clear = .ok a' := by
    rw [clear, hfold, ok_bind, hblank]
  have hg : a'.Geometry P level :=
    { one_le := hb.one_le
      bytes := hb.bytes
      sizeIndex := hb.sizeIndex
      sizeMask := hb.sizeMask
      groups_length := by simp [a', blankGroups]
      elements := hb.elements }
  exact ⟨a', hclear, Ok.blank hg rfl hempty, contents_of_empty hempty⟩

end Arrays

end BenchHashmaps.Boost
