import BenchHashmaps.TwoWay.LookupLaws

/-!
# Whole runs

A run is a constructor call followed by any finite sequence of operations
that all return, none of them on the key `EMPTY`. `Effect` says once what
each operation can do to a table that keeps the invariant; everything about
runs is proved from it.
-/

namespace BenchHashmaps

open Lib (bind_ok ok_bind pure_ok)
open Lib.Buckets (nth mem_flatten_iff)

inductive Op (Key Value : Type)
  | insert (key : Key) (value : Value)
  | erase (key : Key)
  | grow
  | clear
  deriving DecidableEq, Repr

variable {Key Value : Type} [LinearOrder Key] [OrderTop Key] {BUCKET : Nat}

namespace Op

def exec (p : Target Key Value BUCKET) (fuel : Nat) (t : TwoWay Key Value BUCKET) :
    Op Key Value → Except Fault (TwoWay Key Value BUCKET)
  | .insert key value => t.insert p fuel key value
  | .erase key => t.erase p key
  | .grow => t.grow p fuel
  | .clear => t.clear

def Returns (p : Target Key Value BUCKET) (op : Op Key Value) (t t' : TwoWay Key Value BUCKET) :
    Prop :=
  ∃ fuel, op.exec p fuel t = .ok t'

def KeyOk : Op Key Value → Prop
  | .insert key _ => key ≠ EMPTY
  | .erase key => key ≠ EMPTY
  | .grow => True
  | .clear => True

instance (op : Op Key Value) : Decidable op.KeyOk := by
  cases op <;> unfold KeyOk <;> infer_instance

def execAll (p : Target Key Value BUCKET) (fuel : Nat) (ops : List (Op Key Value))
    (t : TwoWay Key Value BUCKET) : Except Fault (TwoWay Key Value BUCKET) :=
  ops.foldlM (fun t op => op.exec p fuel t) t

end Op

namespace TwoWay

def Step (p : Target Key Value BUCKET) (t : TwoWay Key Value BUCKET) (op : Op Key Value)
    (t' : TwoWay Key Value BUCKET) : Prop :=
  op.KeyOk ∧ op.Returns p t t'

abbrev Runs (p : Target Key Value BUCKET) :
    TwoWay Key Value BUCKET → List (Op Key Value) → TwoWay Key Value BUCKET → Prop :=
  Lib.Run (Step p)

def Reachable (p : Target Key Value BUCKET) (t : TwoWay Key Value BUCKET) : Prop :=
  ∃ t0 ops, new p = .ok t0 ∧ Runs p t0 ops t

/-- What an operation that returned did. -/
inductive Effect (p : Target Key Value BUCKET) (t : TwoWay Key Value BUCKET) :
    Op Key Value → TwoWay Key Value BUCKET → Prop
  | insert : key ≠ EMPTY → Inserted p t (key, value) t' → Effect p t (.insert key value) t'
  | erase : Hit p t key first n →
      Erased p t (p.candidate first t.capacity key) n (key, value) t' → Effect p t (.erase key) t'
  | grow : Grown p t t' → Effect p t .grow t'
  | clear : Fresh p t.capacity t' → Effect p t .clear t'

section
variable {p : Target Key Value BUCKET} {t t' : TwoWay Key Value BUCKET}

theorem clear_ok (hi : Inv p t) (h : t.clear = .ok t') : Fresh p t.capacity t' := by
  rw [clear, bind_ok] at h
  obtain ⟨data, hd, h⟩ := h
  cases pure_ok.mp h
  obtain ⟨hl, -, hb⟩ := fillEmpty_ok hd hi.length.le
  exact fresh_of_blank hi.pow2 hl hi.fits hb

theorem Step.effect (hi : Inv p t) (h : Step p t op t') : Effect p t op t' := by
  obtain ⟨hk, fuel, h⟩ := h
  cases op with
  | insert key value => exact .insert hk (insert_ok hi hk h)
  | erase key =>
    by_cases hm : key ∈ t.keys
    · obtain ⟨first, n, value, t'', hhit, -, -, -, -, he, her⟩ := found hi hm
      cases he.symm.trans h
      exact .erase hhit her
    · cases (missed hi hk hm).2.2.symm.trans h
  | grow => exact .grow (grow_ok hi h)
  | clear => exact .clear (clear_ok hi h)

theorem Effect.inv (h : Effect p t op t') : Inv p t' := by
  cases h with
  | insert _ h => exact h.inv
  | erase _ h => exact h.inv
  | grow h => exact h.inv
  | clear h => exact h.inv

theorem Effect.capacity (h : Effect p t op t') :
    ∃ j, t'.capacity.toNat = t.capacity.toNat * 2 ^ j := by
  cases h with
  | insert _ h => exact h.capacity
  | erase _ h => exact ⟨0, by simp [h.capacity]⟩
  | grow h => obtain ⟨j, -, hj⟩ := h.capacity; exact ⟨j, hj⟩
  | clear h => exact ⟨0, by simp [h.capacity]⟩

theorem new_ok (h : new p = .ok t) : Fresh p 8 t := by
  rw [new, bind_ok] at h
  obtain ⟨data, ha, h⟩ := h
  cases pure_ok.mp h
  obtain ⟨hl, hf, hb⟩ := allocate_ok ha
  exact fresh_of_blank ⟨3, rfl⟩ hl hf hb

theorem Runs.inv (hr : Runs p t ops t') (hi : Inv p t) : Inv p t' :=
  hr.invariant (Inv p) (fun _ _ _ hi h => (h.effect hi).inv) hi

theorem Reachable.inv (hr : Reachable p t) : Inv p t := by
  obtain ⟨t0, ops, h0, hr⟩ := hr
  exact hr.inv (new_ok h0).inv

theorem Reachable.eight_le (hr : Reachable p t) : 8 ≤ t.capacity.toNat := by
  obtain ⟨t0, ops, h0, hr⟩ := hr
  refine (hr.invariant (fun t => Inv p t ∧ 8 ≤ t.capacity.toNat) ?_ ⟨(new_ok h0).inv, ?_⟩).2
  · rintro s op s' ⟨hi, h8⟩ h
    obtain ⟨j, hj⟩ := (h.effect hi).capacity
    exact ⟨(h.effect hi).inv, hj ▸ h8.trans (Nat.le_mul_of_pos_right _ (Nat.two_pow_pos j))⟩
  · rw [(new_ok h0).capacity]
    rfl

-- ---------------------------------------------------------------------------
-- The stored pairs
-- ---------------------------------------------------------------------------

theorem Inserted.pairs (hi : Inv p t) (h : Inserted p t e t') : t'.pairs = e ::ₘ t.pairs := by
  rw [h.inv.pairs_eq, hi.pairs_eq, Multiset.cons_coe, Multiset.coe_eq_coe]
  exact h.contents

theorem Erased.pairs (hi : Inv p t) (h : Erased p t b n e t') : t.pairs = e ::ₘ t'.pairs := by
  rw [h.inv.pairs_eq, hi.pairs_eq, Multiset.cons_coe, Multiset.coe_eq_coe]
  exact h.contents

theorem Grown.pairs (hi : Inv p t) (h : Grown p t t') : t'.pairs = t.pairs := by
  rw [h.inv.pairs_eq, hi.pairs_eq, Multiset.coe_eq_coe]
  exact h.contents

theorem Fresh.pairs {capacity : UInt64} (h : Fresh p capacity t) : t.pairs = 0 := by
  rw [h.inv.pairs_eq, h.contents]
  rfl

theorem Inv.size_eq (hi : Inv p t) : t.size.toNat = t.pairs.card := by
  rw [hi.pairs_eq, TwoWay.size, hi.size]
  rfl

theorem Inv.cell_unique (hi : Inv p t) (hn : t.keys.Nodup) (hk : key ≠ EMPTY)
    (h : t.keyAt b n = some key) (h' : t.keyAt b' n' = some key) : b = b' ∧ n = n' := by
  rw [hi.keyAt_iff hk] at h h'
  obtain ⟨value, h⟩ := h
  obtain ⟨value', h'⟩ := h'
  have hkeys : (t.buckets.map (List.map Prod.fst)).flatten.Nodup := by
    rw [keys, hi.pairs_eq, Multiset.map_coe, Multiset.coe_nodup] at hn
    rwa [← List.map_flatten]
  refine Lib.Buckets.nth_unique (x := key) hkeys ?_ ?_
  · rw [Lib.Buckets.nth_map, List.getElem?_map, h]
    rfl
  · rw [Lib.Buckets.nth_map, List.getElem?_map, h']
    rfl

-- ---------------------------------------------------------------------------
-- Executing a run
-- ---------------------------------------------------------------------------

theorem runs_of_exec (hk : ∀ op ∈ ops, Op.KeyOk op) (h : Op.execAll p fuel ops t = .ok t') :
    Runs p t ops t' := by
  induction ops generalizing t with
  | nil =>
    cases pure_ok.mp h
    exact .nil
  | cons op ops ih =>
    rw [Op.execAll, List.foldlM_cons, bind_ok] at h
    obtain ⟨mid, hop, h⟩ := h
    exact .cons ⟨hk op (by simp), fuel, hop⟩ (ih (fun op hop => hk op (by simp [hop])) h)

/-- Both hypotheses are decided by running the model; `P` is tested on the
table at the end. -/
theorem exists_runs_from (p : Target Key Value BUCKET) (fuel : Nat) (ops : List (Op Key Value))
    (P : TwoWay Key Value BUCKET → Bool) (hk : ∀ op ∈ ops, Op.KeyOk op)
    (h : ((Op.execAll p fuel ops t).toOption.any P) = true) :
    ∃ t', Runs p t ops t' ∧ P t' = true := by
  cases hrun : Op.execAll p fuel ops t with
  | error => simp [hrun, Except.toOption] at h
  | ok t' =>
    rw [hrun] at h
    exact ⟨t', runs_of_exec hk hrun, h⟩

theorem exists_runs (p : Target Key Value BUCKET) (fuel : Nat) (ops : List (Op Key Value))
    (P : TwoWay Key Value BUCKET → Bool) (hk : ∀ op ∈ ops, Op.KeyOk op)
    (h : ((new p >>= Op.execAll p fuel ops).toOption.any P) = true) :
    ∃ t0 t, new p = .ok t0 ∧ Runs p t0 ops t ∧ P t = true := by
  cases h0 : new p with
  | error => simp [h0, bind, Except.bind, Except.toOption] at h
  | ok t0 =>
    rw [h0, ok_bind] at h
    obtain ⟨t, hr, hP⟩ := exists_runs_from p fuel ops P hk h
    exact ⟨t0, t, rfl, hr, hP⟩

end

example : ∃ t0 t, new u64Target = .ok t0 ∧
    Runs u64Target t0 [.insert 1 10, .insert 2 20, .erase 1, .grow, .clear] t ∧
      t.capacity == 16 :=
  exists_runs u64Target 2 _ (fun t => t.capacity == 16) (by decide) (by decide +kernel)

end TwoWay

end BenchHashmaps
