import BenchHashmaps.TwoWay.Invariant

/-!
# Insert and grow

On a table that keeps the invariant, `insert` either stores the entry in the
shorter candidate bucket (`insert_room`) or grows and retries (`insert_full`),
and `grow` inserts the contents into a fresh table of twice the capacity
(`growWith_eq`). `insert_rule` is the induction over the recursion between the
two, at any depth; what a call keeps is proved from it.
-/

namespace BenchHashmaps

open Lib (bind_ok pure_ok Run foldlM_ok FuelMono Buckets)
open Lib.Buckets (Placed Balanced nth place choose)

variable {Key Value : Type} [LinearOrder Key] [OrderTop Key] {BUCKET : Nat}

namespace TwoWay

section
variable {p : Target Key Value BUCKET} {t t' : TwoWay Key Value BUCKET}

-- ---------------------------------------------------------------------------
-- One store
-- ---------------------------------------------------------------------------

def Full (p : Target Key Value BUCKET) (t : TwoWay Key Value BUCKET) (key : Key) : Prop :=
  (t.buckets.nth (p.first t.capacity key)).length = BUCKET ∧
    (t.buckets.nth (p.second t.capacity key)).length = BUCKET

instance (p : Target Key Value BUCKET) (t : TwoWay Key Value BUCKET) (key : Key) :
    Decidable (Full p t key) :=
  inferInstanceAs (Decidable (_ ∧ _))

structure Stored (p : Target Key Value BUCKET) (t : TwoWay Key Value BUCKET) (e : Key × Value)
    (t' : TwoWay Key Value BUCKET) : Prop where
  capacity : t'.capacity = t.capacity
  buckets : t'.buckets = t.buckets.place (fun e => p.first t.capacity e.1)
    (fun e => p.second t.capacity e.1) e
  inv : Inv p t'

theorem store_returns (hi : Inv p t) (hs : t.data[i]? = some slot)
    (hn : slot.entries.length < BUCKET) (hk : key ≠ EMPTY)
    (hc : i = p.first t.capacity key ∨ i = p.second t.capacity key) (value : Value) :
    ∃ t', t.store i slot slot.entries.length key value = .ok t' ∧ Inv p t' ∧
      t'.capacity = t.capacity ∧ t'.buckets = t.buckets.push i (key, value) := by
  obtain ⟨slot', hput, hp', he'⟩ :=
    (hi.packed slot (List.mem_of_getElem? hs)).put hn hk value
  let t' : TwoWay Key Value BUCKET := { t with data := t.data.set i slot', size_ := t.size_ + 1 }
  have hb : t'.buckets = t.buckets.push i (key, value) := buckets_set hs he'
  have hlt : i < t.buckets.length := by
    simpa [buckets] using (List.getElem?_eq_some_iff.mp hs).1
  have hcount : t'.contents.length = t.contents.length + 1 := by
    rw [contents, hb, (Lib.Buckets.flatten_push hlt).length_eq]
    rfl
  -- the new count is below 2 ^ 63, so `size_++` does not wrap
  have hmax : t'.contents.length < 2 ^ 63 :=
    contents_length_lt (p := p) (by rw [List.length_set, hi.length]) hi.fits
  refine ⟨t', by rw [store, hput]; rfl, ?_, rfl, hb⟩
  refine hi.set_slot hs hp' he' (hi.placed.push hc) ?_
  change (t.size_ + 1).toNat = (t.buckets.push i (key, value)).flatten.length
  rw [← hb]
  change _ = t'.contents.length
  rw [hcount, UInt64.toNat_add, hi.size]
  exact Nat.mod_eq_of_lt (by simp; omega)

theorem insert_full (hi : Inv p t) (hf : Full p t key) (fuel : Nat) :
    insert p (fuel + 1) t key value =
      growWith p (insert p fuel) t >>= fun t => insert p fuel t key value := by
  obtain ⟨slot1, hs1, -⟩ := hi.slot_exists (hi.first_lt key)
  obtain ⟨slot2, hs2, -⟩ := hi.slot_exists (hi.second_lt key)
  have hf' : slot1.scan 0 = BUCKET ∧ slot2.scan 0 = BUCKET := by
    rw [Slot.scan_eq, Slot.scan_eq, ← nth_buckets hs1, ← nth_buckets hs2]
    exact hf
  rw [insert, show t.slotAt (index1 (p.hash key) t.capacity) = _ from slotAt_ok.mpr hs1,
    show t.slotAt (index2 (p.hash key) t.capacity) = _ from slotAt_ok.mpr hs2]
  exact if_pos hf'

theorem insert_choose (hi : Inv p t) (hf : ¬ Full p t key) (value : Value) :
    ∃ i slot, i = choose (fun e => p.first t.capacity e.1) (fun e => p.second t.capacity e.1)
      t.buckets (key, value) ∧ t.data[i]? = some slot ∧ slot.entries.length < BUCKET ∧
      ∀ fuel, insert p (fuel + 1) t key value =
        t.store i slot slot.entries.length key value := by
  obtain ⟨slot1, hs1, -⟩ := hi.slot_exists (hi.first_lt key)
  obtain ⟨slot2, hs2, -⟩ := hi.slot_exists (hi.second_lt key)
  have hl1 := slot1.length_entries_le
  have hl2 := slot2.length_entries_le
  rw [Full, nth_buckets hs1, nth_buckets hs2] at hf
  have hrun : ∀ fuel, insert p (fuel + 1) t key value =
      if slot1.entries.length ≤ slot2.entries.length then
        t.store (p.first t.capacity key) slot1 slot1.entries.length key value
      else t.store (p.second t.capacity key) slot2 slot2.entries.length key value := by
    intro fuel
    rw [insert, show t.slotAt (index1 (p.hash key) t.capacity) = _ from slotAt_ok.mpr hs1,
      show t.slotAt (index2 (p.hash key) t.capacity) = _ from slotAt_ok.mpr hs2]
    simp only [Slot.scan_eq]
    exact if_neg hf
  rw [choose, nth_buckets hs1, nth_buckets hs2]
  by_cases hle : slot1.entries.length ≤ slot2.entries.length
  · rw [if_pos hle]
    exact ⟨_, slot1, rfl, hs1, by omega, fun fuel => by rw [hrun, if_pos hle]⟩
  · rw [if_neg hle]
    exact ⟨_, slot2, rfl, hs2, by omega, fun fuel => by rw [hrun, if_neg hle]⟩

theorem insert_room (hi : Inv p t) (hk : key ≠ EMPTY) (hf : ¬ Full p t key) (value : Value) :
    ∃ t', Stored p t (key, value) t' ∧ ∀ fuel, insert p (fuel + 1) t key value = .ok t' := by
  obtain ⟨i, slot, hchoose, hs, hlt, hrun⟩ := insert_choose hi hf value
  have hc : i = p.first t.capacity key ∨ i = p.second t.capacity key := by
    rw [hchoose]
    exact Lib.Buckets.choose_eq _ _ _ _
  obtain ⟨t', hst, hi', hcap, hb⟩ := store_returns hi hs hlt hk hc value
  refine ⟨t', ⟨hcap, ?_, hi'⟩, fun fuel => by rw [hrun, hst]⟩
  rw [hb, place, hchoose]

-- ---------------------------------------------------------------------------
-- One grow
-- ---------------------------------------------------------------------------

theorem growWith_eq (hi : Inv p t)
    (ins : TwoWay Key Value BUCKET → Key → Value → Except Fault (TwoWay Key Value BUCKET)) :
    growWith p ins t = allocate p (t.capacity * 2) >>= fun data =>
      t.contents.foldlM (fun t e => ins t e.1 e.2)
        { data, capacity := t.capacity * 2, size_ := 0 } := by
  simp only [growWith, ← hi.length, forSlots_eq]
  rfl

theorem Inv.pow2_two_mul (hi : Inv p t) : ∃ m, (t.capacity * 2).toNat = 2 ^ m := by
  obtain ⟨m, hm⟩ := hi.pow2
  exact ⟨m + 1, by rw [hi.two_mul_capacity, hm, Nat.pow_succ]⟩

theorem growWith_ok (hi : Inv p t)
    {ins : TwoWay Key Value BUCKET → Key → Value → Except Fault (TwoWay Key Value BUCKET)}
    (h : growWith p ins t = .ok t') :
    ∃ t0, Fresh p (t.capacity * 2) t0 ∧
      Run (fun t e t' => ins t e.1 e.2 = .ok t') t0 t.contents t' := by
  rw [growWith_eq hi, bind_ok] at h
  obtain ⟨data, ha, h⟩ := h
  obtain ⟨hl, hf, hb⟩ := allocate_ok ha
  exact ⟨_, fresh_of_blank hi.pow2_two_mul hl hf hb, foldlM_ok.mp h⟩

-- ---------------------------------------------------------------------------
-- The recursion
-- ---------------------------------------------------------------------------

/-- The copy loop as a run of `P`, given that every insert in it is one. -/
theorem copy_run {ins : TwoWay Key Value BUCKET → Key × Value → TwoWay Key Value BUCKET → Prop}
    (P : TwoWay Key Value BUCKET → Key × Value → TwoWay Key Value BUCKET → Prop)
    (keep : ∀ t e t', Inv p t → P t e t' → Inv p t')
    (hins : ∀ t e t', Inv p t → e.1 ≠ EMPTY → ins t e t' → P t e t')
    (hr : Run ins t es t') (hi : Inv p t) (hk : ∀ e ∈ es, e.1 ≠ EMPTY) :
    Run P t es t' ∧ Inv p t' := by
  induction hr with
  | nil => exact ⟨.nil, hi⟩
  | cons h _ ih =>
    have hP := hins _ _ _ hi (hk _ (by simp)) h
    obtain ⟨hr, hi'⟩ := ih (keep _ _ _ hi hP) fun e he => hk e (by simp [he])
    exact ⟨.cons hP hr, hi'⟩

/-- Induction over an insert that returned. `P t e t'` has to hold of a
store, and of a grow when it holds of every insert of the copy loop, whether
or not that grew again, and of the retry. -/
theorem insert_rule (P : TwoWay Key Value BUCKET → Key × Value → TwoWay Key Value BUCKET → Prop)
    (keep : ∀ t e t', Inv p t → P t e t' → Inv p t')
    (store : ∀ t e t', Inv p t → e.1 ≠ EMPTY → Stored p t e t' → P t e t')
    (grow : ∀ t e t0 t1 t', Inv p t → e.1 ≠ EMPTY → Full p t e.1 → Fresh p (t.capacity * 2) t0 →
      Run P t0 t.contents t1 → P t1 e t' → P t e t')
    (hi : Inv p t) (hk : e.1 ≠ EMPTY) (h : insert p fuel t e.1 e.2 = .ok t') : P t e t' := by
  induction fuel generalizing t e t' with
  | zero => cases h
  | succ fuel ih =>
    by_cases hf : Full p t e.1
    · rw [insert_full hi hf, bind_ok] at h
      obtain ⟨t1, hg, hr⟩ := h
      obtain ⟨t0, hfresh, hrun⟩ := growWith_ok hi hg
      obtain ⟨hrunP, hi1⟩ := copy_run P keep (fun _ _ _ hi hk h => ih hi hk h) hrun hfresh.inv
        fun e he => contents_ne_empty he
      exact grow t e t0 t1 t' hi hk hf hfresh hrunP (ih hi1 hk hr)
    · obtain ⟨t'', hst, hrun⟩ := insert_room hi hk hf e.2
      rw [hrun fuel] at h
      cases h
      exact store t e _ hi hk hst

-- ---------------------------------------------------------------------------
-- What a call keeps
-- ---------------------------------------------------------------------------

/-- What an insert that returned did, however often it grew. -/
structure Inserted (p : Target Key Value BUCKET) (t : TwoWay Key Value BUCKET) (e : Key × Value)
    (t' : TwoWay Key Value BUCKET) : Prop where
  inv : Inv p t'
  contents : t'.contents.Perm (e :: t.contents)
  capacity : ∃ j, t'.capacity.toNat = t.capacity.toNat * 2 ^ j

structure Grown (p : Target Key Value BUCKET) (t t' : TwoWay Key Value BUCKET) : Prop where
  inv : Inv p t'
  contents : t'.contents.Perm t.contents
  capacity : ∃ j, 1 ≤ j ∧ t'.capacity.toNat = t.capacity.toNat * 2 ^ j

theorem Stored.contents (hi : Inv p t) (h : Stored p t e t') :
    t'.contents.Perm (e :: t.contents) := by
  rw [TwoWay.contents, h.buckets]
  refine Lib.Buckets.flatten_push ?_
  rcases Lib.Buckets.choose_eq (fun e => p.first t.capacity e.1)
    (fun e => p.second t.capacity e.1) t.buckets e with hc | hc
  · rw [hc]
    exact hi.first_lt e.1
  · rw [hc]
    exact hi.second_lt e.1

theorem Inserted.run (hr : Run (Inserted p) t es t') (hi : Inv p t) :
    Inv p t' ∧ t'.contents.Perm (es ++ t.contents) ∧
      ∃ j, t'.capacity.toNat = t.capacity.toNat * 2 ^ j := by
  induction hr with
  | nil => exact ⟨hi, .refl _, 0, by simp⟩
  | @cons t e mid es t' h _ ih =>
    obtain ⟨hi', hc, j, hj⟩ := ih h.inv
    obtain ⟨i, hi⟩ := h.capacity
    refine ⟨hi', ?_, i + j, by rw [hj, hi, Nat.mul_assoc, Nat.pow_add]⟩
    exact hc.trans ((h.contents.append_left es).trans List.perm_middle)

theorem Grown.of_run (hi : Inv p t) (hf : Fresh p (t.capacity * 2) t0)
    (hr : Run (Inserted p) t0 t.contents t') : Grown p t t' := by
  obtain ⟨hi', hc, j, hj⟩ := Inserted.run hr hf.inv
  rw [hf.contents, List.append_nil] at hc
  rw [hf.capacity, hi.two_mul_capacity] at hj
  exact ⟨hi', hc, j + 1, by omega, by rw [hj, Nat.pow_succ, Nat.mul_assoc, Nat.mul_comm 2]⟩

theorem Inserted.grow (hg : Grown p t t1) (h : Inserted p t1 e t') : Inserted p t e t' := by
  obtain ⟨i, -, hi⟩ := hg.capacity
  obtain ⟨j, hj⟩ := h.capacity
  exact ⟨h.inv, h.contents.trans (hg.contents.cons e), i + j,
    by rw [hj, hi, Nat.mul_assoc, Nat.pow_add]⟩

theorem insert_ok (hi : Inv p t) (hk : key ≠ EMPTY) (h : insert p fuel t key value = .ok t') :
    Inserted p t (key, value) t' := by
  refine insert_rule (Inserted p) (fun _ _ _ _ h => h.inv) ?_ ?_ hi (e := (key, value)) hk h
  · intro t e t' hi _ hs
    exact ⟨hs.inv, hs.contents hi, 0, by simp [hs.capacity]⟩
  · intro t e t0 t1 t' hi _ _ hf hr h
    exact h.grow (.of_run hi hf hr)

theorem grow_ok (hi : Inv p t) (h : grow p fuel t = .ok t') : Grown p t t' := by
  obtain ⟨t0, hf, hr⟩ := growWith_ok hi h
  obtain ⟨hr, -⟩ := copy_run (Inserted p) (fun _ _ _ _ h => h.inv)
    (fun _ _ _ hi hk h => insert_ok hi hk h) hr hf.inv fun e he => contents_ne_empty he
  exact .of_run hi hf hr

theorem Grown.size_eq (hi : Inv p t) (h : Grown p t t') : t'.size_ = t.size_ := by
  rw [← UInt64.toNat_inj, h.inv.size, hi.size, h.contents.length_eq]

end

end TwoWay

end BenchHashmaps
