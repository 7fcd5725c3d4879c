import BenchHashmaps.TwoWay.Representation

/-!
# The sentinel as a key

`EMPTY` is a value of the key type that no call rejects. Reading it finds free
cells and writing it leaves a cell free, so the stored pairs never change;
but `size_` still counts the call. Only `size_` can go wrong this way, and no
operation reads it: a table reached with such calls is, up to `size_`, one
that keeps the invariant.
-/

namespace BenchHashmaps

open Lib (bind_ok ok_bind pure_ok Run)

variable {Key Value : Type} [LinearOrder Key] [OrderTop Key] {BUCKET : Nat}

/-- Not an insert of `EMPTY`; an `erase` may be called with it. -/
def Op.InsertOk : Op Key Value → Prop
  | .insert key _ => key ≠ EMPTY
  | _ => True

theorem Op.KeyOk.insertOk {op : Op Key Value} (h : op.KeyOk) : op.InsertOk := by
  cases op with
  | insert key value => exact h
  | _ => trivial

-- ---------------------------------------------------------------------------
-- Slots
-- ---------------------------------------------------------------------------

namespace Slot

variable {slot slot1 slot2 : Slot Key Value BUCKET}

theorem Packed.put_empty (hp : slot.Packed) (hn : slot.entries.length < BUCKET) (value : Value) :
    ∃ slot', slot.put slot.entries.length EMPTY value = .ok slot' ∧ slot'.Packed ∧
      slot'.entries = slot.entries := by
  obtain ⟨hp', he⟩ := Lib.Packed.set_free (x := (EMPTY, value)) hp (le_refl _) (by simp)
  have hc := cells_set slot hn EMPTY value
  exact ⟨_, dif_pos hn, (congrArg (Lib.Packed occupied) hc).mpr hp',
    (congrArg (Lib.live occupied) hc).trans he⟩

theorem Packed.remove_free (hp : slot.Packed) (hi : i < BUCKET) (hk : slot.keys[i] = EMPTY) :
    (slot.remove i).Packed ∧ (slot.remove i).entries = slot.entries := by
  have hfree : slot.entries.length ≤ i :=
    Nat.le_of_not_lt fun h => (hp.key_ne_iff hi).mpr h hk
  obtain ⟨value, hc⟩ := cells_remove slot hi
  obtain ⟨hp', he⟩ := Lib.Packed.erase_free (x := (EMPTY, value)) hp hfree (by simp)
  exact ⟨(congrArg (Lib.Packed occupied) hc).mpr hp', (congrArg (Lib.live occupied) hc).trans he⟩

/-- The loop runs while either cell is occupied, so it meets a free cell
exactly when one slot ends before the other. -/
theorem containsLoop_empty (hp1 : slot1.Packed) (hp2 : slot2.Packed) (steps : UInt64)
    (h1 : i ≤ slot1.entries.length) (h2 : i ≤ slot2.entries.length) :
    (containsLoop slot1 slot2 EMPTY i steps).1 =
      decide (slot1.entries.length ≠ slot2.entries.length) := by
  have hb1 := slot1.length_entries_le
  have hb2 := slot2.length_entries_le
  fun_induction containsLoop slot1 slot2 EMPTY i steps with
  | case1 i steps hi hne hk =>
    have hlive := or_congr (hp1.key_ne_iff hi) (hp2.key_ne_iff hi)
    have hlt := hlive.mp hne
    have hge := mt (hp1.key_ne_iff hi).mpr (not_not.mpr hk)
    exact (decide_eq_true (by omega)).symm
  | case2 i steps hi hne hk1 steps' hk2 =>
    have hlt := (hp1.key_ne_iff hi).mp hk1
    have hge := mt (hp2.key_ne_iff hi).mpr (not_not.mpr hk2)
    exact (decide_eq_true (by omega)).symm
  | case3 i steps hi hne hk1 steps' hk2 steps'' ih =>
    exact ih ((hp1.key_ne_iff hi).mp hk1) ((hp2.key_ne_iff hi).mp hk2)
  | case4 i steps hi hfree =>
    have hge := mt (or_congr (hp1.key_ne_iff hi) (hp2.key_ne_iff hi)).mpr hfree
    exact (decide_eq_false (by omega)).symm
  | case5 i steps hi => exact (decide_eq_false (by omega)).symm

end Slot

namespace TwoWay

def withSize (t : TwoWay Key Value BUCKET) (n : UInt64) : TwoWay Key Value BUCKET :=
  { t with size_ := n }

def Shaped (p : Target Key Value BUCKET) (t : TwoWay Key Value BUCKET) : Prop :=
  ∃ n, Inv p (t.withSize n)

section
variable {p : Target Key Value BUCKET} {t t' : TwoWay Key Value BUCKET}

theorem Inv.shaped (hi : Inv p t) : Shaped p t := ⟨t.size_, hi⟩

-- ---------------------------------------------------------------------------
-- No operation reads the count
-- ---------------------------------------------------------------------------

omit [LinearOrder Key] [OrderTop Key] in
theorem store_withSize (h : t.store i slot n key value = .ok t') (m : UInt64) :
    (t.withSize m).store i slot n key value = .ok (t'.withSize (m + 1)) := by
  rw [store, bind_ok] at h
  obtain ⟨slot', hput, h⟩ := h
  cases pure_ok.mp h
  rw [store, hput]
  rfl

/-- A grow makes a new count, a store continues the old one. -/
theorem insert_withSize (h : insert p fuel t key value = .ok t') (n : UInt64) :
    ∃ m, insert p fuel (t.withSize n) key value = .ok (t'.withSize m) := by
  cases fuel with
  | zero => cases h
  | succ fuel =>
    rw [insert, bind_ok] at h
    obtain ⟨slot1, hs1, h⟩ := h
    rw [bind_ok] at h
    obtain ⟨slot2, hs2, h⟩ := h
    simp only [insert, show (t.withSize n).slotAt (index1 (p.hash key) (t.withSize n).capacity) =
      .ok slot1 from hs1, show (t.withSize n).slotAt (index2 (p.hash key) (t.withSize n).capacity) =
      .ok slot2 from hs2, ok_bind]
    by_cases hf : slot1.scan 0 = BUCKET ∧ slot2.scan 0 = BUCKET
    · rw [if_pos hf] at h ⊢
      exact ⟨t'.size_, h⟩
    · rw [if_neg hf] at h ⊢
      by_cases hle : slot1.scan 0 ≤ slot2.scan 0
      · rw [if_pos hle] at h ⊢
        exact ⟨_, store_withSize h n⟩
      · rw [if_neg hle] at h ⊢
        exact ⟨_, store_withSize h n⟩

-- ---------------------------------------------------------------------------
-- Writing a free cell
-- ---------------------------------------------------------------------------

theorem buckets_set_same (hs : t.data[i]? = some slot) (he : slot'.entries = slot.entries) :
    (t.data.set i slot').map Slot.entries = t.buckets :=
  (buckets_set (f := id) hs he).trans (List.modify_id i t.buckets)

theorem Inv.set_same (hi : Inv p t) (hs : t.data[i]? = some slot) (hp : slot'.Packed)
    (he : slot'.entries = slot.entries) : Inv p { t with data := t.data.set i slot' } := by
  have hb : t.buckets.modify i id = t.buckets := List.modify_id i t.buckets
  refine hi.set_slot hs hp (f := id) he ?_ ?_
  · rw [hb]
    exact hi.placed
  · rw [hb]
    exact hi.size

theorem Shaped.erase (hs : Shaped p t) (h : erase p t key = .ok t') : Shaped p t' := by
  obtain ⟨n, hi⟩ := hs
  obtain ⟨slot1, slot2, hs1, hs2, -, -⟩ := hi.candidates key
  rw [erase_eq (t := t) hs1 hs2] at h
  cases hprobe : Slot.probe slot1 slot2 key 0 with
  | none =>
    rw [hprobe] at h
    cases h
  | some hit =>
    obtain ⟨first, m⟩ := hit
    rw [hprobe] at h
    cases h
    by_cases hk : key = EMPTY
    · subst hk
      have hslot := (probe_hit hs1 hs2 hprobe).2
      obtain ⟨hp, he⟩ := (hi.packed _ (List.mem_of_getElem? hslot)).remove_free m.isLt
        (Slot.probe_some hprobe).2.1
      exact ⟨n, hi.set_same hslot hp he⟩
    · have herase : TwoWay.erase p (t.withSize n) key = .ok ((t.withSize n).discard
          (p.candidate first t.capacity key) (Slot.pick first slot1 slot2) m) := by
        rw [erase_eq hs1 hs2, hprobe]
        rfl
      have hstep : Step p (t.withSize n) (.erase key) _ := ⟨hk, 0, herase⟩
      exact ⟨n - 1, (Step.effect hi hstep).inv⟩

/-- What an insert of `EMPTY` did: it stored nothing and counted itself. -/
structure Miscounted (p : Target Key Value BUCKET) (t t' : TwoWay Key Value BUCKET) : Prop where
  inv : Inv p (t'.withSize (t'.size_ - 1))
  contents : t'.contents.Perm t.contents

theorem store_empty_ok (hi : Inv p t) (hs : t.data[i]? = some slot)
    (hn : slot.entries.length < BUCKET) (value : Value) :
    ∃ t', t.store i slot slot.entries.length EMPTY value = .ok t' ∧ Miscounted p t t' := by
  obtain ⟨slot', hput, hp', he'⟩ := (hi.packed slot (List.mem_of_getElem? hs)).put_empty hn value
  let t' : TwoWay Key Value BUCKET := { t with data := t.data.set i slot', size_ := t.size_ + 1 }
  have hsize : t.size_ + 1 - 1 = t.size_ := UInt64.add_sub_cancel _ _
  refine ⟨t', by rw [store, hput]; rfl, ?_, ?_⟩
  · change Inv p { t with data := t.data.set i slot', size_ := t.size_ + 1 - 1 }
    rw [hsize]
    exact hi.set_same hs hp' he'
  · change (List.map Slot.entries (t.data.set i slot')).flatten.Perm _
    rw [buckets_set_same hs he']
    exact .refl _

theorem insert_empty_ok (hi : Inv p t) (h : insert p fuel t EMPTY value = .ok t') :
    Miscounted p t t' := by
  induction fuel generalizing t with
  | zero => cases h
  | succ fuel ih =>
    by_cases hf : Full p t EMPTY
    · rw [insert_full hi hf, bind_ok] at h
      obtain ⟨t1, hg, h⟩ := h
      have hgrown := grow_ok hi hg
      have hmis := ih hgrown.inv h
      exact ⟨hmis.inv, hmis.contents.trans hgrown.contents⟩
    · obtain ⟨i, slot, -, hs, hlt, hrun⟩ := insert_choose hi hf value
      obtain ⟨t'', hst, hmis⟩ := store_empty_ok hi hs hlt value
      rw [hrun, hst] at h
      cases h
      exact hmis

-- ---------------------------------------------------------------------------
-- Runs without an insert of EMPTY
-- ---------------------------------------------------------------------------

def ReachedWithoutEmpty (p : Target Key Value BUCKET) (t : TwoWay Key Value BUCKET) : Prop :=
  ∃ (t0 : TwoWay Key Value BUCKET) (ops : List (Op Key Value)), new p = .ok t0 ∧
    Run (fun t op t' => op.InsertOk ∧ op.Returns p t t') t0 ops t

theorem Reachable.withoutEmpty (hr : Reachable p t) : ReachedWithoutEmpty p t := by
  obtain ⟨t0, ops, h0, hr⟩ := hr
  exact ⟨t0, ops, h0, hr.mono fun _ _ _ h => ⟨h.1.insertOk, h.2⟩⟩

theorem Shaped.step {op : Op Key Value} (hs : Shaped p t) (hk : op.InsertOk)
    (h : op.Returns p t t') : Shaped p t' := by
  obtain ⟨fuel, h⟩ := h
  cases op with
  | insert key value =>
    obtain ⟨n, hi⟩ := hs
    obtain ⟨m, hm⟩ := insert_withSize h n
    exact ⟨m, (insert_ok hi hk hm).inv⟩
  | erase key => exact hs.erase h
  | grow =>
    obtain ⟨n, hi⟩ := hs
    exact (grow_ok hi h).inv.shaped
  | clear =>
    obtain ⟨n, hi⟩ := hs
    exact (clear_ok hi h).inv.shaped

theorem ReachedWithoutEmpty.shaped (hr : ReachedWithoutEmpty p t) : Shaped p t := by
  obtain ⟨t0, ops, h0, hr⟩ := hr
  exact hr.invariant (Shaped p) (fun _ _ _ hs h => hs.step h.1 h.2) (new_ok h0).inv.shaped

/-- `EMPTY` is found where one candidate bucket ends before the other. -/
theorem Inv.contains_empty (hi : Inv p t) (steps : UInt64) :
    ∃ steps', contains p t EMPTY steps = .ok (decide (t.load (p.first t.capacity EMPTY) ≠
      t.load (p.second t.capacity EMPTY)), steps') := by
  obtain ⟨slot1, slot2, hs1, hs2, hp1, hp2⟩ := hi.candidates EMPTY
  have hloop := Slot.containsLoop_empty hp1 hp2 steps (Nat.zero_le _) (Nat.zero_le _)
  refine ⟨(Slot.containsLoop slot1 slot2 EMPTY 0 steps).2, ?_⟩
  rw [contains, show t.slotAt (index1 (p.hash EMPTY) t.capacity) = _ from slotAt_ok.mpr hs1,
    show t.slotAt (index2 (p.hash EMPTY) t.capacity) = _ from slotAt_ok.mpr hs2, hi.load_eq,
    hi.load_eq, nth_buckets hs1, nth_buckets hs2, ← hloop]
  rfl

theorem Inv.insert_empty_returns (hi : Inv p t) (hf : ¬ Full p t EMPTY) (value : Value) :
    ∃ t', insert p 1 t EMPTY value = .ok t' := by
  obtain ⟨i, slot, -, hs, hlt, hrun⟩ := insert_choose hi hf value
  obtain ⟨t', hst, -⟩ := store_empty_ok hi hs hlt value
  exact ⟨t', (hrun 0).trans hst⟩

theorem Miscounted.pairs (hi : Inv p t) (h : Miscounted p t t') : t'.pairs = t.pairs := by
  have hpairs := h.inv.pairs_eq
  change t'.pairs = _ at hpairs
  rw [hpairs, hi.pairs_eq, Multiset.coe_eq_coe]
  exact h.contents

theorem Miscounted.size (h : Miscounted p t t') : t'.size.toNat = t'.pairs.card + 1 := by
  have hlt : t'.contents.length < 2 ^ 63 := contents_length_lt h.inv.length h.inv.fits
  have hcard : t'.pairs.card = t'.contents.length := congrArg Multiset.card h.inv.pairs_eq
  have hpred : (t'.size_ - 1).toNat = t'.pairs.card := h.inv.size_eq
  have hsize : t'.size_ = t'.size_ - 1 + 1 := (UInt64.sub_add_cancel _ _).symm
  rw [TwoWay.size, hsize, UInt64.toNat_add, hpred]
  exact Nat.mod_eq_of_lt (by simp; omega)

-- ---------------------------------------------------------------------------
-- What calls with EMPTY do
-- ---------------------------------------------------------------------------

/-- On a table no insert was given `EMPTY`: `contains(EMPTY)` is false exactly
when the two candidate buckets hold equally many entries; `insert(EMPTY, _)`
returns when one of them has a free cell, keeps the stored pairs, and leaves a
right count one too high. -/
theorem empty_key_answers (hr : ReachedWithoutEmpty p t) :
    (∀ steps, ∃ steps', contains p t EMPTY steps = .ok (decide
      (t.load (p.first t.capacity EMPTY) ≠ t.load (p.second t.capacity EMPTY)), steps')) ∧
    ∀ value,
      (t.load (p.first t.capacity EMPTY) < BUCKET ∨ t.load (p.second t.capacity EMPTY) < BUCKET →
        ∃ t', (Op.insert EMPTY value).Returns p t t') ∧
      ∀ t', (Op.insert EMPTY value).Returns p t t' → t'.pairs = t.pairs ∧
        (t.size.toNat = t.pairs.card → t'.size.toNat = t'.pairs.card + 1) := by
  obtain ⟨n, hi⟩ := hr.shaped
  refine ⟨fun steps => hi.contains_empty steps, fun value => ⟨fun hroom => ?_, ?_⟩⟩
  · have hf : ¬ Full p (t.withSize n) EMPTY := by
      rintro ⟨h1, h2⟩
      rw [← hi.load_eq] at h1 h2
      exact hroom.elim (fun h => h.ne h1) fun h => h.ne h2
    obtain ⟨t', h⟩ := hi.insert_empty_returns hf value
    obtain ⟨m, hm⟩ := insert_withSize h t.size_
    exact ⟨t'.withSize m, 1, hm⟩
  · rintro t' ⟨fuel, h⟩
    obtain ⟨m, hm⟩ := insert_withSize h n
    have hpairs : (t'.withSize m).pairs = (t.withSize n).pairs := (insert_empty_ok hi hm).pairs hi
    refine ⟨hpairs, fun hsize => ?_⟩
    have hcount : Inv p t := by
      refine ⟨hi.pow2, hi.length, hi.fits, hi.packed, hi.placed, ?_⟩
      exact hsize.trans (congrArg Multiset.card hi.pairs_eq)
    exact (insert_empty_ok hcount h).size

theorem u64_empty_key_answers : ∃ t t', ReachedWithoutEmpty u64Target t ∧ t.size = 1 ∧
    (Op.insert EMPTY 20).Returns u64Target t t' ∧ t'.pairs = t.pairs := by
  obtain ⟨t0, t, h0, hr, ht⟩ := exists_runs u64Target 1 [.insert 1 10]
    (fun t => t.size == 1 && t.load (u64Target.second t.capacity EMPTY) == 0)
    (by decide) (by decide +kernel)
  rw [Bool.and_eq_true, beq_iff_eq, beq_iff_eq] at ht
  have hreach : ReachedWithoutEmpty u64Target t := Reachable.withoutEmpty ⟨t0, _, h0, hr⟩
  obtain ⟨hreturns, hkeeps⟩ := (empty_key_answers hreach).2 20
  obtain ⟨t', h⟩ := hreturns (.inr (by rw [ht.2]; decide))
  exact ⟨t, t', hreach, ht.1, h, (hkeeps t' h).1⟩

theorem u64_empty_key_found : ∃ t t', ReachedWithoutEmpty u64Target t ∧
    (∃ steps', contains u64Target t EMPTY 0 = .ok (true, steps')) ∧
    (Op.insert EMPTY 20).Returns u64Target t t' ∧ t'.size.toNat ≠ t'.pairs.card := by
  obtain ⟨t0, t, h0, hr, ht⟩ := exists_runs u64Target 1 [.insert 1 10]
    (fun t => t.load (u64Target.first t.capacity EMPTY) == 1 &&
      t.load (u64Target.second t.capacity EMPTY) == 0) (by decide) (by decide +kernel)
  rw [Bool.and_eq_true, beq_iff_eq, beq_iff_eq] at ht
  have hreach : Reachable u64Target t := ⟨t0, _, h0, hr⟩
  have hroom : ¬ Full u64Target t EMPTY := by
    rintro ⟨-, h2⟩
    rw [← hreach.inv.load_eq, ht.2] at h2
    cases h2
  obtain ⟨steps', hfound⟩ := hreach.inv.contains_empty 0
  rw [ht.1, ht.2] at hfound
  obtain ⟨t', h⟩ := hreach.inv.insert_empty_returns hroom 20
  have hsize := (insert_empty_ok hreach.inv h).size
  exact ⟨t, t', hreach.withoutEmpty, ⟨steps', hfound⟩, ⟨1, h⟩, by omega⟩

end

end TwoWay

end BenchHashmaps
