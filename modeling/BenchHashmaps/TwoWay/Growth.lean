import BenchHashmaps.TwoWay.Reachable

/-!
# Termination of insert and grow

`insert` and `grow` call each other until a capacity is reached at which no
insert finds both buckets full. When the keys are uncrowded at a capacity
`C`, that happens at `C` at the latest: the induction is on the number of
doublings left, and inside one grow on the entries still to be copied. Keys
that cannot be placed at any capacity make `insert` grow without end.
-/

namespace BenchHashmaps

open Lib (bind_ok pure_ok Run foldlM_ok foldlM_returns FuelMono)
open Lib.Buckets (Placed Placeable Uncrowded Spread crowd nth nth_map)

variable {Key Value : Type} [LinearOrder Key] [OrderTop Key] {BUCKET : Nat} {σ : Type}

/-- `__aligned_alloc` gives room for `count` objects. -/
def Heap.Provides {α : Type} (heap : Heap α) (count : UInt64) : Prop :=
  ∃ block, heap.alignedAlloc heap.CACHE_LINE (heap.sizeof * count) = some block ∧
    count.toNat ≤ block.length

def Heap.ProvidesUpTo {α : Type} (heap : Heap α) (C : UInt64) : Prop :=
  ∀ capacity : UInt64, (∃ m, capacity.toNat = 2 ^ m) → capacity ≤ C → heap.Provides capacity

def Heap.ProvidesAll {α : Type} (heap : Heap α) : Prop :=
  ∀ capacity : UInt64, (∃ m, capacity.toNat = 2 ^ m) →
    heap.sizeof.toNat * capacity.toNat < 2 ^ 64 → heap.Provides capacity

theorem Heap.ProvidesAll.upTo {α : Type} {heap : Heap α} {C : UInt64} (h : heap.ProvidesAll)
    (hC : heap.sizeof.toNat * C.toNat < 2 ^ 64) : heap.ProvidesUpTo C :=
  fun capacity h2 hle => h capacity h2 <|
    (Nat.mul_le_mul_left _ (UInt64.le_iff_toNat_le.mp hle)).trans_lt hC

namespace TwoWay

-- ---------------------------------------------------------------------------
-- Fuel
-- ---------------------------------------------------------------------------

theorem forSlots_mono {f g : σ → Key → Value → Except Fault σ}
    (hfg : ∀ acc key value acc', f acc key value = .ok acc' → g acc key value = .ok acc')
    {slots : List (Slot Key Value BUCKET)} (h : forSlots f slots count acc = .ok acc') :
    forSlots g slots count acc = .ok acc' := by
  induction slots generalizing count acc with
  | nil =>
    cases count with
    | zero => exact h
    | succ count => cases h
  | cons slot slots ih =>
    cases count with
    | zero => exact h
    | succ count =>
      rw [forSlots, Slot.forEntries_eq, bind_ok] at h ⊢
      obtain ⟨mid, hmid, h⟩ := h
      exact ⟨mid, foldlM_ok.mpr ((foldlM_ok.mp hmid).mono fun _ _ _ => hfg _ _ _ _), ih h⟩

section
variable {p : Target Key Value BUCKET} {t t' : TwoWay Key Value BUCKET}

theorem growWith_mono
    {ins ins' : TwoWay Key Value BUCKET → Key → Value → Except Fault (TwoWay Key Value BUCKET)}
    (hins : ∀ t key value t', ins t key value = .ok t' → ins' t key value = .ok t')
    (h : growWith p ins t = .ok t') : growWith p ins' t = .ok t' := by
  unfold growWith at h ⊢
  obtain ⟨data, hdata, h⟩ := bind_ok.mp h
  exact bind_ok.mpr ⟨data, hdata, forSlots_mono hins h⟩

theorem insert_mono (p : Target Key Value BUCKET) :
    FuelMono fun fuel t (e : Key × Value) => insert p fuel t e.1 e.2 := by
  intro n m t e t' hle h
  induction n generalizing m t e t' with
  | zero => cases h
  | succ n ih =>
    cases m with
    | zero => omega
    | succ m =>
      have hle : n ≤ m := by omega
      simp only [insert, bind_ok] at h ⊢
      obtain ⟨slot1, hs1, slot2, hs2, h⟩ := h
      refine ⟨slot1, hs1, slot2, hs2, ?_⟩
      split at h
      next hfull =>
        obtain ⟨mid, hg, h⟩ := bind_ok.mp h
        rw [if_pos hfull]
        refine bind_ok.mpr ⟨mid, growWith_mono (fun t key value t' h => ?_) hg, ?_⟩
        · exact ih m t (key, value) t' hle h
        · exact ih m mid e t' hle h
      next hfull => rw [if_neg hfull]; exact h

theorem returns_unique {op : Op Key Value} {t'' : TwoWay Key Value BUCKET}
    (h : op.Returns p t t') (h' : op.Returns p t t'') : t' = t'' := by
  have hmono : ∀ {n m : Nat} {t' : TwoWay Key Value BUCKET}, n ≤ m →
      op.exec p n t = .ok t' → op.exec p m t = .ok t' := by
    intro n m t' hle h
    cases op with
    | insert key value => exact insert_mono p n m t (key, value) t' hle h
    | erase key => exact h
    | grow =>
      exact growWith_mono (fun t key value t' => insert_mono p n m t (key, value) t' hle) h
    | clear => exact h
  obtain ⟨n, h⟩ := h
  obtain ⟨m, h'⟩ := h'
  have heq := (hmono (Nat.le_max_left n m) h).symm.trans (hmono (Nat.le_max_right n m) h')
  exact Except.ok.inj heq

theorem returns_test {op : Op Key Value} {P : TwoWay Key Value BUCKET → Bool}
    (h : op.Returns p t t') (hP : (op.exec p fuel t).toOption.any P = true) : P t' = true := by
  cases hx : op.exec p fuel t with
  | error => simp [hx, Except.toOption] at hP
  | ok t'' =>
    rw [hx] at hP
    rw [returns_unique h ⟨fuel, hx⟩]
    exact hP

-- ---------------------------------------------------------------------------
-- One grow that returns
-- ---------------------------------------------------------------------------

theorem allocate_returns {capacity : UInt64} (h : p.heap.Provides capacity) :
    ∃ data, allocate p capacity = .ok data := by
  obtain ⟨block, hb, hle⟩ := h
  unfold allocate
  simp only [hb, Option.getD_some]
  exact fillEmpty_returns _ (by rw [List.length_take, Nat.min_eq_left hle])

/-- A grow returns when its allocation does and every insert of its copy loop
does, each with its own fuel. -/
theorem growWith_returns (hi : Inv p t) (ha : p.heap.Provides (t.capacity * 2))
    (I : List (Key × Value) → TwoWay Key Value BUCKET → Prop)
    (hstart : ∀ t0, Fresh p (t.capacity * 2) t0 → I t.contents t0)
    (hstep : ∀ t e rest, I (e :: rest) t →
      ∃ fuel t', insert p fuel t e.1 e.2 = .ok t' ∧ I rest t') :
    ∃ fuel t', growWith p (insert p fuel) t = .ok t' ∧ I [] t' := by
  obtain ⟨data, hdata⟩ := allocate_returns ha
  obtain ⟨hl, hf, hb⟩ := allocate_ok hdata
  obtain ⟨fuel, t', hloop, hend⟩ := foldlM_returns (insert_mono p) I hstep
    (hstart _ (fresh_of_blank hi.pow2_two_mul hl hf hb))
  refine ⟨fuel, t', ?_, hend⟩
  rw [growWith_eq hi, bind_ok]
  exact ⟨data, hdata, hloop⟩

-- ---------------------------------------------------------------------------
-- Below a capacity
-- ---------------------------------------------------------------------------

/-- `t` is at most `d` doublings away from capacity `C`, and its keys and
those of `rest`, still to be inserted, are among `K`. -/
structure Below (p : Target Key Value BUCKET) (C : UInt64) (K : Multiset Key) (d : Nat)
    (rest : List (Key × Value)) (t : TwoWay Key Value BUCKET) : Prop where
  inv : Inv p t
  distance : ∃ i, i ≤ d ∧ t.capacity.toNat * 2 ^ i = C.toNat
  keys : ↑(rest.map Prod.fst) + t.keys ≤ K

variable {C : UInt64} {K : Multiset Key}

theorem Inserted.keys (hi : Inv p t) (h : Inserted p t e t') : t'.keys = e.1 ::ₘ t.keys := by
  rw [TwoWay.keys, h.pairs hi, Multiset.map_cons, ← TwoWay.keys]

theorem Below.inserted (hb : Below p C K d (e :: rest) t) (h : Inserted p t e t')
    (hd : ∃ i, i ≤ d ∧ t'.capacity.toNat * 2 ^ i = C.toNat) : Below p C K d rest t' where
  inv := h.inv
  distance := hd
  keys := by
    have hkeys := hb.keys
    rw [h.keys hb.inv, Multiset.add_cons]
    rwa [List.map_cons, ← Multiset.cons_coe, Multiset.cons_add] at hkeys

theorem Below.mono (hb : Below p C K d rest t) (hd : d ≤ d') : Below p C K d' rest t := by
  obtain ⟨i, hi, hC⟩ := hb.distance
  exact ⟨hb.inv, ⟨i, hi.trans hd, hC⟩, hb.keys⟩

theorem Below.le (hb : Below p C K d rest t) : t.capacity ≤ C := by
  obtain ⟨i, -, hC⟩ := hb.distance
  rw [UInt64.le_iff_toNat_le, ← hC]
  exact Nat.le_mul_of_pos_right _ (Nat.two_pow_pos i)

theorem Below.fresh (hi : Inv p t) (hd : t.capacity.toNat * 2 ^ (d + 1) = C.toNat)
    (hkeys : ↑(rest.map Prod.fst) + t.keys ≤ K) (hf : Fresh p (t.capacity * 2) t0) :
    Below p C K d (t.contents ++ rest) t0 where
  inv := hf.inv
  distance := by
    refine ⟨d, le_refl d, ?_⟩
    rw [hf.capacity, hi.two_mul_capacity, ← hd, Nat.pow_succ, Nat.mul_assoc, Nat.mul_comm 2]
  keys := by
    have h0 : t0.keys = 0 := by rw [TwoWay.keys, hf.pairs]; rfl
    have ht : t.keys = ↑(t.contents.map Prod.fst) := by rw [TwoWay.keys, hi.pairs_eq]; rfl
    rw [h0, add_zero, List.map_append, ← Multiset.coe_add, ← ht, add_comm]
    exact hkeys

def keyBuckets (t : TwoWay Key Value BUCKET) : Lib.Buckets Key := t.buckets.map (List.map Prod.fst)

theorem Inv.keyBuckets_placed (hi : Inv p t) :
    Placed (p.first t.capacity) (p.second t.capacity) t.keyBuckets :=
  hi.placed.map

theorem Inv.keyBuckets_flatten (hi : Inv p t) : ↑t.keyBuckets.flatten = t.keys := by
  rw [keyBuckets, ← List.map_flatten, keys, hi.pairs_eq]
  rfl

theorem length_keyBuckets_nth : (t.keyBuckets.nth i).length = (t.buckets.nth i).length := by
  rw [keyBuckets, nth_map, List.length_map]

theorem length_keyBuckets_le (h : b ∈ t.keyBuckets) : b.length ≤ BUCKET := by
  rw [keyBuckets, buckets, List.map_map, List.mem_map] at h
  obtain ⟨slot, -, rfl⟩ := h
  simpa using slot.length_entries_le

/-- At `C` itself the pigeonhole principle leaves room for every insert. -/
theorem Below.not_full (hu : Uncrowded (p.first C) (p.second C) BUCKET K)
    (hb : Below p C K 0 (e :: rest) t) : ¬ Full p t e.1 := by
  obtain ⟨i, hi, hC⟩ := hb.distance
  obtain rfl : i = 0 := by omega
  have hcap : t.capacity = C := by
    rw [← UInt64.toNat_inj, ← hC, Nat.pow_zero, Nat.mul_one]
  subst hcap
  have hkeys : e.1 ::ₘ ↑t.keyBuckets.flatten ≤ K := by
    refine le_trans ?_ hb.keys
    rw [hb.inv.keyBuckets_flatten, List.map_cons, ← Multiset.cons_coe, Multiset.cons_add]
    exact Multiset.cons_le_cons _ (Multiset.le_add_left _ _)
  rintro ⟨h1, h2⟩
  rcases hu.not_full hb.inv.keyBuckets_placed hkeys with h | h
  · rw [length_keyBuckets_nth] at h
    omega
  · rw [length_keyBuckets_nth] at h
    omega

theorem Below.room (hb : Below p C K d (e :: rest) t) (hk : e.1 ≠ EMPTY) (hf : ¬ Full p t e.1) :
    ∃ fuel t', insert p fuel t e.1 e.2 = .ok t' ∧ Below p C K d rest t' := by
  obtain ⟨t', hs, hins⟩ := insert_room hb.inv hk hf e.2
  refine ⟨1, t', hins 0, hb.inserted (insert_ok hb.inv hk (hins 0)) ?_⟩
  rw [hs.capacity]
  exact hb.distance

theorem Below.ne_empty (hK : EMPTY ∉ K) (hb : Below p C K d (e :: rest) t) : e.1 ≠ EMPTY := by
  intro h
  have he : e.1 ∈ K := Multiset.mem_of_le hb.keys (by simp)
  exact hK (h ▸ he)

-- ---------------------------------------------------------------------------
-- The recursion stops
-- ---------------------------------------------------------------------------

section
variable (hp : p.heap.ProvidesUpTo C)
variable (hu : Uncrowded (p.first C) (p.second C) BUCKET K) (hK : EMPTY ∉ K)
include hp

theorem grow_below (hins : ∀ {t e rest}, Below p C K d (e :: rest) t →
      ∃ fuel t', insert p fuel t e.1 e.2 = .ok t' ∧ Below p C K d rest t')
    (hi : Inv p t) (hd : t.capacity.toNat * 2 ^ (d + 1) = C.toNat)
    (hkeys : ↑(rest.map Prod.fst) + t.keys ≤ K) :
    ∃ fuel t', growWith p (insert p fuel) t = .ok t' ∧ Below p C K d rest t' := by
  have hle : t.capacity * 2 ≤ C := by
    rw [UInt64.le_iff_toNat_le, hi.two_mul_capacity, ← hd, Nat.pow_succ, Nat.mul_comm (2 ^ d),
      ← Nat.mul_assoc]
    exact Nat.le_mul_of_pos_right _ (Nat.two_pow_pos d)
  exact growWith_returns hi (hp _ hi.pow2_two_mul hle) (fun es t => Below p C K d (es ++ rest) t)
    (fun t0 hf => .fresh hi hd hkeys hf) fun t e es hb => hins hb

include hu hK

/-- Induction on the doublings left. A grow leaves one less for the inserts of
its copy loop, whichever of them grow again, and for the retry. -/
theorem insert_below (hb : Below p C K d (e :: rest) t) :
    ∃ fuel t', insert p fuel t e.1 e.2 = .ok t' ∧ Below p C K d rest t' := by
  induction d generalizing t e rest with
  | zero => exact hb.room (hb.ne_empty hK) (hb.not_full hu)
  | succ d ih =>
    by_cases hf : Full p t e.1
    · obtain ⟨i, hi, hC⟩ := hb.distance
      rcases Nat.lt_or_eq_of_le hi with hlt | rfl
      · obtain ⟨fuel, t', hins, hb'⟩ := ih ⟨hb.inv, ⟨i, by omega, hC⟩, hb.keys⟩
        exact ⟨fuel, t', hins, hb'.mono (Nat.le_succ d)⟩
      · obtain ⟨n, t1, hgrow, hb1⟩ := grow_below hp ih hb.inv hC hb.keys
        obtain ⟨m, t', hins, hb'⟩ := ih hb1
        refine ⟨max n m + 1, t', ?_, hb'.mono (Nat.le_succ d)⟩
        rw [insert_full hb.inv hf, bind_ok]
        refine ⟨t1, growWith_mono (fun t key value t' h => ?_) hgrow, ?_⟩
        · exact insert_mono p _ _ t (key, value) t' (Nat.le_max_left n m) h
        · exact insert_mono p _ _ t1 e t' (Nat.le_max_right n m) hins
    · exact hb.room (hb.ne_empty hK) hf

omit hu hK in
theorem insert_returns (hu : Uncrowded (p.first C) (p.second C) BUCKET (key ::ₘ t.keys))
    (hi : Inv p t) (hC : t.capacity.toNat * 2 ^ j = C.toNat) (hk : key ≠ EMPTY) (value : Value) :
    ∃ fuel t', insert p fuel t key value = .ok t' ∧ t'.capacity ≤ C := by
  have hE : EMPTY ∉ key ::ₘ t.keys := by
    rw [Multiset.mem_cons, not_or]
    exact ⟨hk.symm, hi.empty_notMem_keys⟩
  have hb : Below p C (key ::ₘ t.keys) j [(key, value)] t :=
    ⟨hi, ⟨j, le_refl j, hC⟩, le_of_eq (Multiset.singleton_add key t.keys)⟩
  obtain ⟨fuel, t', hins, hb'⟩ := insert_below hp hu hE hb
  exact ⟨fuel, t', hins, hb'.le⟩

end

theorem u64_providesAll : u64Target.heap.ProvidesAll := by
  have hsize : ∀ m < 58, 2 ^ m ≤
      ((64 * UInt64.ofNat (2 ^ m) + 64 - 1) &&& ~~~(64 - 1)).toNat / 64 := by decide +kernel
  rintro capacity ⟨m, hm⟩ hlt
  have h64 : u64Target.heap.sizeof.toNat = 64 := rfl
  have hm58 : m < 58 := by
    rw [h64, hm] at hlt
    by_contra h
    have := Nat.pow_le_pow_right (n := 2) (by omega) (Nat.le_of_not_lt h)
    omega
  obtain rfl : capacity = .ofNat (2 ^ m) := by rw [← hm, UInt64.ofNat_toNat]
  refine ⟨_, rfl, ?_⟩
  rw [List.length_replicate, hm]
  exact hsize m hm58

-- ---------------------------------------------------------------------------
-- Bounded growth
-- ---------------------------------------------------------------------------

/-- When at capacity `C` no bucket is a candidate of more keys than it has
cells, growth stops at `C`, and needs no larger allocation. A grow at least
doubles the capacity. -/
theorem growth_bounded (hr : Reachable p t) (hC : t.capacity.toNat * 2 ^ j = C.toNat)
    (hp : p.heap.ProvidesUpTo C) :
    (∀ key value, key ≠ EMPTY →
      (∀ b, crowd (p.first C) (p.second C) (key ::ₘ t.keys) b ≤ BUCKET) →
      ∃ t', (Op.insert key value).Returns p t t' ∧ t.capacity ≤ t'.capacity ∧ t'.capacity ≤ C) ∧
    (1 ≤ j → (∀ b, crowd (p.first C) (p.second C) t.keys b ≤ BUCKET) →
      ∃ t', Op.grow.Returns p t t' ∧ 2 * t.capacity.toNat ≤ t'.capacity.toNat ∧
        t'.capacity ≤ C) := by
  have hi := hr.inv
  have hle : ∀ {t' : TwoWay Key Value BUCKET} {i : Nat},
      t'.capacity.toNat = t.capacity.toNat * 2 ^ i → t.capacity ≤ t'.capacity := by
    intro t' i h
    rw [UInt64.le_iff_toNat_le, h]
    exact Nat.le_mul_of_pos_right _ (Nat.two_pow_pos i)
  constructor
  · intro key value hk hcrowd
    obtain ⟨fuel, t', hins, hC'⟩ := insert_returns hp
      (Lib.Buckets.uncrowded_of_crowd_le hcrowd) hi hC hk value
    obtain ⟨i, hcap⟩ := (insert_ok hi hk hins).capacity
    exact ⟨t', ⟨fuel, hins⟩, hle hcap, hC'⟩
  · intro hj hcrowd
    obtain ⟨d, rfl⟩ : ∃ d, j = d + 1 := ⟨j - 1, by omega⟩
    have hkeys : ↑(([] : List (Key × Value)).map Prod.fst) + t.keys ≤ t.keys := by simp
    obtain ⟨fuel, t', hgrow, hb'⟩ := grow_below hp
      (fun hb => insert_below hp (Lib.Buckets.uncrowded_of_crowd_le hcrowd) hi.empty_notMem_keys hb)
      hi hC hkeys
    obtain ⟨i, hi1, hcap⟩ := (grow_ok hi hgrow).capacity
    have htwo : 2 * t.capacity.toNat ≤ t'.capacity.toNat := by
      rw [hcap, Nat.mul_comm]
      exact Nat.mul_le_mul_left _ (Nat.le_self_pow (Nat.ne_of_gt hi1) 2)
    exact ⟨t', ⟨fuel, hgrow⟩, htwo, hb'.le⟩

/-- At capacity 16 five of the keys have bucket 12 for both candidates, so the
copy loop of either grow, from 8 to 16, starts another one. -/
theorem u64_growth_bounded : ∃ t t' t'', Reachable u64Target t ∧ t.capacity = 8 ∧
    Full u64Target t 1051 ∧ (Op.insert 1051 60).Returns u64Target t t' ∧ t'.capacity = 32 ∧
    Op.grow.Returns u64Target t t'' ∧ t''.capacity = 32 := by
  let K : Multiset UInt64 := {1417, 765, 178, 771, 177}
  obtain ⟨t0, t, h0, hr, ht⟩ := exists_runs u64Target 1
    [.insert 1417 10, .insert 765 20, .insert 178 30, .insert 771 40, .insert 177 50]
    (fun t => t.capacity == 8 && decide (Full u64Target t 1051) && decide (t.keys = K) &&
      (Op.exec u64Target 3 t (.insert 1051 60)).toOption.any (·.capacity == 32) &&
      (Op.exec u64Target 3 t .grow).toOption.any (·.capacity == 32))
    (by decide) (by decide +kernel)
  simp only [Bool.and_eq_true, beq_iff_eq, decide_eq_true_eq] at ht
  obtain ⟨⟨⟨⟨hcap, hfull⟩, hkeys⟩, hinsert⟩, hgrow⟩ := ht
  have hC : t.capacity.toNat * 2 ^ 2 = (32 : UInt64).toNat := by rw [hcap]; rfl
  obtain ⟨hin, hgr⟩ := growth_bounded ⟨t0, _, h0, hr⟩ hC (u64_providesAll.upTo (by decide))
  rw [hkeys] at hin hgr
  obtain ⟨t', hret, -, -⟩ := hin 1051 60 (by decide)
    (Spread.crowd_le (by decide +kernel))
  obtain ⟨t'', hret', -, -⟩ := hgr (by decide)
    (Spread.crowd_le (by decide +kernel))
  exact ⟨t, t', t'', ⟨t0, _, h0, hr⟩, hcap, hfull, hret, by simpa using returns_test hret hinsert,
    hret', by simpa using returns_test hret' hgrow⟩

-- ---------------------------------------------------------------------------
-- Growth without a bound on the keys
-- ---------------------------------------------------------------------------

/-- Whether insert returns depends on the keys. It does, with no size
wrapping, when they are uncrowded at some capacity it can grow to; and only
when they can be placed at one. -/
theorem insert_returns_of_uncrowded (hr : Reachable p t) (hk : key ≠ EMPTY)
    (hp : p.heap.ProvidesAll) (value : Value) :
    (∀ C j, t.capacity.toNat * 2 ^ j = C.toNat → p.heap.sizeof.toNat * C.toNat < 2 ^ 64 →
      Uncrowded (p.first C) (p.second C) BUCKET (key ::ₘ t.keys) →
      ∃ t', (Op.insert key value).Returns p t t' ∧ t'.capacity ≤ C) ∧
    ∀ t', (Op.insert key value).Returns p t t' →
      (∃ j, t'.capacity.toNat = t.capacity.toNat * 2 ^ j) ∧
      p.heap.sizeof.toNat * t'.capacity.toNat < 2 ^ 64 ∧
      Placeable (p.first t'.capacity) (p.second t'.capacity) t'.capacity.toNat BUCKET
        (key ::ₘ t.keys) := by
  have hi := hr.inv
  constructor
  · intro C j hC hfits hu
    obtain ⟨fuel, t', hins, hle⟩ := insert_returns (hp.upTo hfits) hu hi hC hk value
    exact ⟨t', ⟨fuel, hins⟩, hle⟩
  · rintro t' ⟨fuel, h⟩
    have hins := insert_ok hi hk h
    have hi' := hins.inv
    refine ⟨hins.capacity, hi'.fits, t'.keyBuckets, ?_, ?_, hi'.keyBuckets_placed, ?_⟩
    · rw [keyBuckets, List.length_map, hi'.length_buckets]
    · exact fun b hb => length_keyBuckets_le hb
    · rw [hi'.keyBuckets_flatten, hins.keys hi]

/-- Two full buckets of four, and a ninth key for them. At capacity 16 eight of
the keys compete for bucket 4, but each has another candidate or few rivals. -/
theorem u64_insert_returns_of_uncrowded : ∃ t t', Reachable u64Target t ∧ t.capacity = 8 ∧
    Full u64Target t 89 ∧ ¬ Uncrowded (u64Target.first 8) (u64Target.second 8) 4 (89 ::ₘ t.keys) ∧
    (Op.insert 89 90).Returns u64Target t t' ∧ t'.capacity = 16 ∧
    Placeable (u64Target.first 16) (u64Target.second 16) 16 4 (89 ::ₘ t.keys) := by
  let K : Multiset UInt64 := {10, 18, 28, 33, 46, 54, 56, 65}
  obtain ⟨t0, t, h0, hr, ht⟩ := exists_runs u64Target 1
    [.insert 10 1, .insert 18 2, .insert 28 3, .insert 33 4, .insert 46 5, .insert 54 6,
      .insert 56 7, .insert 65 8]
    (fun t => t.capacity == 8 && decide (Full u64Target t 89) && decide (t.keys = K) &&
      (Op.exec u64Target 2 t (.insert 89 90)).toOption.any (·.capacity == 16))
    (by decide) (by decide +kernel)
  simp only [Bool.and_eq_true, beq_iff_eq, decide_eq_true_eq] at ht
  obtain ⟨⟨⟨hcap, hfull⟩, hkeys⟩, hinsert⟩ := ht
  have hC : t.capacity.toNat * 2 ^ 1 = (16 : UInt64).toNat := by rw [hcap]; rfl
  obtain ⟨hreturns, hplaced⟩ := insert_returns_of_uncrowded ⟨t0, _, h0, hr⟩
    (show (89 : UInt64) ≠ EMPTY by decide) u64_providesAll 90
  obtain ⟨t', hret, -⟩ := hreturns 16 1 hC (by decide) (by rw [hkeys]; decide +kernel)
  have hcap' : t'.capacity = 16 := by simpa using returns_test hret hinsert
  obtain ⟨-, -, hplace⟩ := hplaced t' hret
  rw [hcap'] at hplace
  exact ⟨t, t', ⟨t0, _, h0, hr⟩, hcap, hfull, by rw [hkeys]; decide +kernel, hret, hcap', hplace⟩

def constTarget : Target UInt64 UInt64 4 := u64Target.withTrait { hash := fun _ => 0 }

theorem const_length_le {t : TwoWay UInt64 UInt64 4} (hi : Inv constTarget t) :
    t.contents.length ≤ 4 := by
  refine hi.placed.length_le (i := 0) (fun e _ => ?_) fun b hb => ?_
  · simp [Target.first, Target.second, index1, index2, constTarget, Target.withTrait]
  · obtain ⟨slot, -, rfl⟩ := List.mem_map.mp hb
    exact slot.length_entries_le

/-- The fifth key has no place at any capacity, so no fuel is enough. -/
theorem const_insert_diverges : ∃ t, Reachable constTarget t ∧ (5 : UInt64) ≠ EMPTY ∧
    5 ∉ t.keys ∧ constTarget.heap.ProvidesAll ∧
      ∀ value t', ¬ (Op.insert 5 value).Returns constTarget t t' := by
  obtain ⟨t0, t, h0, hr, ht⟩ := exists_runs constTarget 1
    [.insert 1 10, .insert 2 20, .insert 3 30, .insert 4 40]
    (fun t => t.size == 4 && decide (5 ∉ t.keys)) (by decide) (by decide +kernel)
  rw [Bool.and_eq_true, beq_iff_eq, decide_eq_true_iff] at ht
  have hreach : Reachable constTarget t := ⟨t0, _, h0, hr⟩
  have hfour : t.contents.length = 4 := by
    rw [← hreach.inv.size, ← size, ht.1]
    rfl
  refine ⟨t, hreach, by decide, ht.2, u64_providesAll, fun value t' => ?_⟩
  rintro ⟨fuel, h⟩
  have hins : Inserted constTarget t (5, value) t' := insert_ok hreach.inv (by decide) h
  have hle := const_length_le hins.inv
  rw [hins.contents.length_eq, List.length_cons] at hle
  omega

end

end TwoWay

end BenchHashmaps
