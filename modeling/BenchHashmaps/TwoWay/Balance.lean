import BenchHashmaps.TwoWay.Reachable

/-!
# Two-choice balance

Every store goes to the shorter candidate bucket, so no entry sits deeper
than the load of its other candidate allows. A grow starts again from empty
buckets under a new capacity, so it establishes the balance whatever the old
table looked like; only an erase can break it.
-/

namespace BenchHashmaps

open Lib (Run)
open Lib.Buckets (nth balanced_of_empty)

variable {Key Value : Type} [LinearOrder Key] [OrderTop Key] {BUCKET : Nat}

namespace TwoWay

def Balanced (p : Target Key Value BUCKET) (t : TwoWay Key Value BUCKET) : Prop :=
  Lib.Buckets.Balanced (fun e => p.first t.capacity e.1) (fun e => p.second t.capacity e.1)
    t.buckets

/-- The table was just constructed, cleared or grown, by `grow` or inside an
`insert`. An insert that grew shows in the capacity. -/
inductive Rebuilt (p : Target Key Value BUCKET) : TwoWay Key Value BUCKET → Prop
  | new : new p = .ok t → Rebuilt p t
  | clear : Reachable p t → Step p t .clear t' → Rebuilt p t'
  | grow : Reachable p t → Step p t .grow t' → Rebuilt p t'
  | insert : Reachable p t → Step p t (.insert key value) t' → t'.capacity ≠ t.capacity →
      Rebuilt p t'

section
variable {p : Target Key Value BUCKET} {t t' : TwoWay Key Value BUCKET}

-- ---------------------------------------------------------------------------
-- Insert and grow
-- ---------------------------------------------------------------------------

theorem Fresh.balanced {capacity : UInt64} (h : Fresh p capacity t) : Balanced p t :=
  balanced_of_empty h.contents

theorem Stored.balanced (h : Stored p t e t') (hb : Balanced p t) : Balanced p t' := by
  rw [Balanced, h.capacity, h.buckets]
  exact hb.place e

/-- An insert keeps the balance, and makes it when it grows. -/
structure InsertedBalanced (p : Target Key Value BUCKET) (t : TwoWay Key Value BUCKET)
    (e : Key × Value) (t' : TwoWay Key Value BUCKET) : Prop extends Inserted p t e t' where
  balanced : Balanced p t ∨ t'.capacity ≠ t.capacity → Balanced p t'

theorem InsertedBalanced.run (hr : Run (InsertedBalanced p) t es t') (hb : Balanced p t) :
    Balanced p t' :=
  hr.invariant (Balanced p) (fun _ _ _ hb h => h.balanced (.inl hb)) hb

theorem insert_balanced (hi : Inv p t) (hk : e.1 ≠ EMPTY)
    (h : insert p fuel t e.1 e.2 = .ok t') : InsertedBalanced p t e t' := by
  refine insert_rule (InsertedBalanced p) (fun _ _ _ _ h => h.inv) ?_ ?_ hi hk h
  · intro t e t' hi _ hs
    refine ⟨⟨hs.inv, hs.contents hi, 0, by simp [hs.capacity]⟩, fun hb => ?_⟩
    exact hs.balanced (hb.resolve_right fun hne => hne hs.capacity)
  · intro t e t0 t1 t' hi _ _ hf hr h
    have hg : Grown p t t1 := .of_run hi hf (hr.mono fun _ _ _ h => h.toInserted)
    exact ⟨h.toInserted.grow hg, fun _ => h.balanced (.inl (InsertedBalanced.run hr hf.balanced))⟩

theorem grow_balanced (hi : Inv p t) (h : grow p fuel t = .ok t') : Balanced p t' := by
  obtain ⟨t0, hf, hr⟩ := growWith_ok hi h
  obtain ⟨hr, -⟩ := copy_run (InsertedBalanced p) (fun _ _ _ _ h => h.inv)
    (fun _ _ _ hi hk h => insert_balanced hi hk h) hr hf.inv fun e he => contents_ne_empty he
  exact InsertedBalanced.run hr hf.balanced

-- ---------------------------------------------------------------------------
-- Runs without erase
-- ---------------------------------------------------------------------------

theorem Step.balanced (hi : Inv p t) (h : Step p t op t') (hne : ∀ key, op ≠ .erase key)
    (hb : Balanced p t) : Balanced p t' := by
  obtain ⟨hk, fuel, h⟩ := h
  cases op with
  | insert key value => exact (insert_balanced (e := (key, value)) hi hk h).balanced (.inl hb)
  | erase key => exact absurd rfl (hne key)
  | grow => exact grow_balanced hi h
  | clear => exact (clear_ok hi h).balanced

theorem Rebuilt.inv (h : Rebuilt p t) : Inv p t := by
  cases h with
  | new h => exact (new_ok h).inv
  | clear hr h => exact (h.effect hr.inv).inv
  | grow hr h => exact (h.effect hr.inv).inv
  | insert hr h _ => exact (h.effect hr.inv).inv

theorem Rebuilt.balanced (h : Rebuilt p t) : Balanced p t := by
  cases h with
  | new h => exact (new_ok h).balanced
  | clear hr h =>
    obtain ⟨-, fuel, h⟩ := h
    exact (clear_ok hr.inv h).balanced
  | grow hr h =>
    obtain ⟨-, fuel, h⟩ := h
    exact grow_balanced hr.inv h
  | insert hr h hne =>
    obtain ⟨hk, fuel, h⟩ := h
    exact (insert_balanced (e := (_, _)) hr.inv hk h).balanced (.inr hne)

theorem Runs.balanced (hr : Runs p t ops t') (hi : Inv p t) (hb : Balanced p t)
    (hne : ∀ key, .erase key ∉ ops) : Inv p t' ∧ Balanced p t' := by
  induction hr with
  | nil => exact ⟨hi, hb⟩
  | cons h _ ih =>
    refine ih (h.effect hi).inv (h.balanced hi (fun key hop => ?_) hb) fun key hop => ?_
    · exact hne key (by simp [hop])
    · exact hne key (by simp [hop])

/-- While no erase has happened since the table was last constructed, cleared
or grown: an entry of a first candidate bucket sits no deeper than the load
of its second, and one of a second strictly less deep than that of its first. -/
theorem entries_balanced (h0 : Rebuilt p t0) (hr : Runs p t0 ops t)
    (hne : ∀ key, .erase key ∉ ops) :
    (∀ key n, key ≠ EMPTY → t.keyAt (p.first t.capacity key) n = some key →
      n ≤ t.load (p.second t.capacity key)) ∧
    ∀ key n, key ≠ EMPTY → p.first t.capacity key ≠ p.second t.capacity key →
      t.keyAt (p.second t.capacity key) n = some key →
      n + 1 ≤ t.load (p.first t.capacity key) := by
  obtain ⟨hi, hb⟩ := hr.balanced h0.inv h0.balanced hne
  constructor
  · intro key n hk h
    obtain ⟨value, hv⟩ := (hi.keyAt_iff hk).mp h
    rw [hi.load_eq]
    exact hb.first (key, value) n hv
  · intro key n hk hdiff h
    obtain ⟨value, hv⟩ := (hi.keyAt_iff hk).mp h
    rw [hi.load_eq]
    exact hb.second (key, value) n hdiff hv

/-- From a grow after an erase: key 5 comes second into its first bucket, key
612 second into its other one. -/
theorem u64_entries_balanced : ∃ t t0 t', Reachable u64Target t ∧ Step u64Target t .grow t0 ∧
    Runs u64Target t0 [.insert 3 30, .insert 4 40, .insert 5 50, .insert 612 60] t' ∧
    t'.keyAt (u64Target.first t'.capacity 5) 1 = some 5 ∧
    1 ≤ t'.load (u64Target.second t'.capacity 5) ∧
    t'.keyAt (u64Target.second t'.capacity 612) 1 = some 612 ∧
    2 ≤ t'.load (u64Target.first t'.capacity 612) := by
  let ops : List (Op UInt64 UInt64) := [.insert 3 30, .insert 4 40, .insert 5 50, .insert 612 60]
  let P : TwoWay UInt64 UInt64 4 → Bool := fun t =>
    t.keyAt (u64Target.first t.capacity 5) 1 == some 5 &&
      t.keyAt (u64Target.second t.capacity 612) 1 == some 612 &&
      u64Target.first t.capacity 612 != u64Target.second t.capacity 612
  obtain ⟨tnew, t, hnew, hr, ht⟩ := exists_runs u64Target 1 [.insert 2 20, .erase 2]
    (fun t => (Op.execAll u64Target 1 [.grow] t).toOption.any fun t0 =>
      (Op.execAll u64Target 1 ops t0).toOption.any P) (by decide) (by decide +kernel)
  obtain ⟨t0, hgrow, ht⟩ := exists_runs_from u64Target 1 [.grow] _ (by decide) ht
  obtain ⟨t', hops, ht⟩ := exists_runs_from u64Target 1 ops P (by decide) ht
  simp only [P, Bool.and_eq_true, beq_iff_eq, bne_iff_ne] at ht
  obtain ⟨⟨hfive, h612⟩, hdiff⟩ := ht
  have hreach : Reachable u64Target t := ⟨tnew, _, hnew, hr⟩
  cases hgrow with
  | cons hstep hnil =>
    cases hnil
    obtain ⟨hfirst, hsecond⟩ := entries_balanced (.grow hreach hstep) hops (by simp [ops])
    exact ⟨t, t0, t', hreach, hstep, hops, hfive, hfirst 5 1 (by decide) hfive, h612,
      hsecond 612 1 (by decide) hdiff h612⟩

end

end TwoWay

end BenchHashmaps
