import BenchHashmaps.TwoWay.Reachable

/-!
# The representation of a reachable table

`Valid` is the representation invariant read off the arrays, with no
reference to buckets or entries. It is `Inv`; the results are that every run
keeps it, that a run which never inserts a stored key stores no key twice,
and that `grow` keeps every pair.
-/

namespace BenchHashmaps

open Lib (Run exists_ok)
open Lib.Buckets (nth)

variable {Key Value : Type} [LinearOrder Key] [OrderTop Key] {BUCKET : Nat}

theorem Slot.packed_iff {slot : Slot Key Value BUCKET} : slot.Packed ↔
    ∃ n, n ≤ BUCKET ∧ ∀ (i : Nat) (h : i < BUCKET), slot.keys[i] ≠ EMPTY ↔ i < n := by
  rw [Slot.Packed, Lib.packed_iff_exists]
  simp [Slot.getElem_cells, Slot.cell]

namespace TwoWay

/-- `data` is an array in memory, so its size in bytes does not wrap. -/
structure Valid (p : Target Key Value BUCKET) (t : TwoWay Key Value BUCKET) : Prop where
  pow2 : ∃ m, t.capacity.toNat = 2 ^ m
  length : t.data.length = t.capacity.toNat
  fits : p.heap.sizeof.toNat * t.capacity.toNat < 2 ^ 64
  occupied : ∀ slot ∈ t.data, ∃ n, n ≤ BUCKET ∧
    ∀ (i : Nat) (h : i < BUCKET), slot.keys[i] ≠ EMPTY ↔ i < n
  candidate : ∀ b n key, key ≠ EMPTY → t.keyAt b n = some key →
    b = p.first t.capacity key ∨ b = p.second t.capacity key
  size : t.size.toNat = t.pairs.card

section
variable {p : Target Key Value BUCKET} {t t' : TwoWay Key Value BUCKET}

theorem Inv.valid (hi : Inv p t) : Valid p t where
  pow2 := hi.pow2
  length := hi.length
  fits := hi.fits
  occupied slot hs := Slot.packed_iff.mp (hi.packed slot hs)
  candidate b n key hk h := by
    obtain ⟨value, hv⟩ := (hi.keyAt_iff hk).mp h
    exact hi.placed b _ (List.mem_of_getElem? hv)
  size := hi.size_eq

theorem Valid.inv (hv : Valid p t) : Inv p t := by
  have hp : ∀ slot ∈ t.data, slot.Packed := fun slot hs => Slot.packed_iff.mpr (hv.occupied slot hs)
  refine ⟨hv.pow2, hv.length, hv.fits, hp, ?_, ?_⟩
  · rintro b ⟨key, value⟩ he
    obtain ⟨n, hn⟩ := List.mem_iff_getElem?.mp he
    have hk : key ≠ EMPTY := contents_ne_empty (Lib.Buckets.mem_flatten_iff.mpr ⟨b, he⟩)
    exact hv.candidate b n key hk ((keyAt_iff hp hk).mpr ⟨value, hn⟩)
  · have hs := hv.size
    rw [pairs_eq hp] at hs
    exact hs

-- ---------------------------------------------------------------------------
-- Runs
-- ---------------------------------------------------------------------------

def NewKey (t : TwoWay Key Value BUCKET) : Op Key Value → Prop
  | .insert key _ => key ∉ t.keys
  | _ => True

/-- Runs that keep to the precondition of `insert`. -/
abbrev RunsNew (p : Target Key Value BUCKET) :
    TwoWay Key Value BUCKET → List (Op Key Value) → TwoWay Key Value BUCKET → Prop :=
  Run fun t op t' => Step p t op t' ∧ NewKey t op

theorem Effect.nodup (hi : Inv p t) (he : Effect p t op t') (hn : NewKey t op)
    (hd : t.keys.Nodup) : t'.keys.Nodup := by
  cases he with
  | insert _ h =>
    rw [keys, h.pairs hi, Multiset.map_cons, Multiset.nodup_cons]
    exact ⟨hn, hd⟩
  | erase _ h =>
    rw [keys, h.pairs hi, Multiset.map_cons, Multiset.nodup_cons] at hd
    exact hd.2
  | grow h =>
    rw [keys, h.pairs hi]
    exact hd
  | clear h =>
    rw [keys, h.pairs]
    exact Multiset.nodup_zero

theorem RunsNew.nodup (h0 : new p = .ok t) (hr : RunsNew p t ops t') : t'.keys.Nodup := by
  refine (hr.invariant (fun t => Inv p t ∧ t.keys.Nodup) ?_ ⟨(new_ok h0).inv, ?_⟩).2
  · rintro s op s' ⟨hi, hd⟩ ⟨h, hn⟩
    have he := h.effect hi
    exact ⟨he.inv, he.nodup hi hn hd⟩
  · rw [keys, (new_ok h0).pairs]
    exact Multiset.nodup_zero

theorem Inv.size_le (hi : Inv p t) : t.size.toNat ≤ BUCKET * t.capacity.toNat := by
  rw [hi.size_eq, hi.pairs_eq, ← hi.length]
  exact t.contents_length_le

/-- The representation invariant over whole runs: the capacity is a power of
two, at least 8, and the number of buckets, so that every index is in range;
buckets are packed and entries are in candidate buckets; `size_` counts the
occupied cells; and without repeated inserts no key is in two cells. -/
theorem runs_valid (h0 : new p = .ok t0) (hr : Runs p t0 ops t) :
    Valid p t ∧ 8 ≤ t.capacity.toNat ∧
      (∀ hash, index1 hash t.capacity < t.data.length ∧ index2 hash t.capacity < t.data.length) ∧
      t.size.toNat ≤ BUCKET * t.capacity.toNat ∧
      (RunsNew p t0 ops t → ∀ key b n b' n', key ≠ EMPTY → t.keyAt b n = some key →
        t.keyAt b' n' = some key → b = b' ∧ n = n') := by
  have hi : Inv p t := hr.inv (new_ok h0).inv
  refine ⟨hi.valid, Reachable.eight_le ⟨t0, ops, h0, hr⟩, fun hash => ?_, hi.size_le, ?_⟩
  · rw [hi.length]
    exact ⟨index1_lt hash hi.capacity_pos, index2_lt hash hi.capacity_pos⟩
  · intro hn key b n b' n' hk h h'
    exact hi.cell_unique (hn.nodup h0) hk h h'

theorem u64_runs_valid : ∃ t0 t, new u64Target = .ok t0 ∧
    Runs u64Target t0 [.insert 1 10, .insert 1 11, .erase 1, .grow, .insert 2 20] t ∧
      t.size = 2 ∧ Valid u64Target t := by
  obtain ⟨t0, t, h0, hr, hs⟩ := exists_runs u64Target 2
    [.insert 1 10, .insert 1 11, .erase 1, .grow, .insert 2 20]
    (fun t => t.size == 2) (by decide) (by decide +kernel)
  exact ⟨t0, t, h0, hr, eq_of_beq hs, (runs_valid h0 hr).1⟩

-- ---------------------------------------------------------------------------
-- Grow
-- ---------------------------------------------------------------------------

/-- `grow` loses and duplicates nothing, however deep the grows inside its
copy loop went. -/
theorem grow_keeps_pairs (hv : Valid p t) (h : grow p fuel t = .ok t') :
    t'.pairs = t.pairs ∧ t'.size = t.size ∧
      (∀ b n key, key ≠ EMPTY → t'.keyAt b n = some key →
        b = p.first t'.capacity key ∨ b = p.second t'.capacity key) ∧
      ∃ j, 1 ≤ j ∧ t'.capacity.toNat = t.capacity.toNat * 2 ^ j := by
  have hi := hv.inv
  have hg := grow_ok hi h
  exact ⟨hg.pairs hi, hg.size_eq hi, hg.inv.valid.candidate, hg.capacity⟩

theorem u64_grow_keeps_pairs : ∃ t t', Valid u64Target t ∧ t.size = 3 ∧
    grow u64Target 2 t = .ok t' ∧ t'.pairs = t.pairs := by
  obtain ⟨t0, t, h0, hr, ht⟩ := exists_runs u64Target 2
    [.insert 1 10, .insert 1 11, .insert 2 20]
    (fun t => t.size == 3 && (grow u64Target 2 t).isOk) (by decide) (by decide +kernel)
  rw [Bool.and_eq_true, beq_iff_eq] at ht
  have hv : Valid u64Target t := (hr.inv (new_ok h0).inv).valid
  obtain ⟨t', hg⟩ := exists_ok ht.2
  exact ⟨t, t', hv, ht.1, hg, (grow_keeps_pairs hv hg).1⟩

end

end TwoWay

end BenchHashmaps
