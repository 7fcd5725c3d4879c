import BenchHashmaps.TwoWay.SlotLaws
import BenchHashmaps.Lib.TwoChoice
import Mathlib.Algebra.Group.Action.Defs
import Mathlib.Algebra.Order.BigOperators.Group.List
import Mathlib.Algebra.Order.Ring.Nat

/-!
# The representation invariant

A table that keeps `Inv` is a two-choice table of buckets: its slots are
packed, every entry is in one of its two candidate buckets for the current
capacity, and `size_` counts the entries. This module has the invariant, the
fresh tables that start it, and what one write or one removal does to it.
-/

namespace BenchHashmaps

open Lib (bind_ok pure_ok Buckets)
open Lib.Buckets (Placed nth)

variable {Key Value : Type} [LinearOrder Key] [OrderTop Key] {BUCKET : Nat} {σ : Type}

-- ---------------------------------------------------------------------------
-- Indices
-- ---------------------------------------------------------------------------

def Target.first (p : Target Key Value BUCKET) (capacity : UInt64) (key : Key) : Nat :=
  index1 (p.hash key) capacity

def Target.second (p : Target Key Value BUCKET) (capacity : UInt64) (key : Key) : Nat :=
  index2 (p.hash key) capacity

theorem and_pred_lt (x : UInt64) {capacity : UInt64} (h : 0 < capacity.toNat) :
    (x &&& (capacity - 1)).toNat < capacity.toNat := by
  have hsub : (capacity - 1).toNat = capacity.toNat - 1 :=
    UInt64.toNat_sub_of_le _ _ (UInt64.le_iff_toNat_le.mpr h)
  rw [UInt64.toNat_and]
  exact lt_of_le_of_lt Nat.and_le_right (by omega)

theorem index1_lt (hash : UInt64) {capacity : UInt64} (h : 0 < capacity.toNat) :
    index1 hash capacity < capacity.toNat := and_pred_lt _ h

theorem index2_lt (hash : UInt64) {capacity : UInt64} (h : 0 < capacity.toNat) :
    index2 hash capacity < capacity.toNat := and_pred_lt _ h

-- ---------------------------------------------------------------------------
-- Buffers
-- ---------------------------------------------------------------------------

def Slot.Blank (slot : Slot Key Value BUCKET) : Prop := slot.Packed ∧ slot.entries = []

theorem fillEmpty_ok {slots slots' : List (Slot Key Value BUCKET)}
    (h : fillEmpty slots count = .ok slots') (hle : slots.length ≤ count) :
    slots'.length = count ∧ slots.length = count ∧ ∀ slot ∈ slots', slot.Blank := by
  induction slots generalizing count slots' with
  | nil =>
    cases count with
    | zero => cases h; simp
    | succ count => cases h
  | cons slot slots ih =>
    cases count with
    | zero => simp at hle
    | succ count =>
      rw [fillEmpty, bind_ok] at h
      obtain ⟨rest, hrest, h⟩ := h
      obtain ⟨hlen, hlen', hblank⟩ := ih hrest (by simpa using hle)
      cases pure_ok.mp h
      refine ⟨by simp [hlen], by simp [hlen'], fun s hs => ?_⟩
      rcases List.mem_cons.mp hs with rfl | hs
      · exact Slot.packed_blank _
      · exact hblank s hs

theorem fillEmpty_returns (slots : List (Slot Key Value BUCKET)) (h : count ≤ slots.length) :
    ∃ slots', fillEmpty slots count = .ok slots' := by
  induction slots generalizing count with
  | nil =>
    rw [List.length_nil, Nat.le_zero] at h
    subst h
    exact ⟨[], rfl⟩
  | cons slot slots ih =>
    cases count with
    | zero => exact ⟨_, rfl⟩
    | succ count =>
      obtain ⟨rest, hrest⟩ := ih (by simpa using h)
      refine ⟨{ slot with keys := Vector.replicate BUCKET EMPTY } :: rest, ?_⟩
      rw [fillEmpty, hrest]
      rfl

theorem forSlots_eq (f : σ → Key → Value → Except Fault σ) (slots : List (Slot Key Value BUCKET))
    (acc : σ) : forSlots f slots slots.length acc =
      (slots.map Slot.entries).flatten.foldlM (fun acc e => f acc e.1 e.2) acc := by
  induction slots generalizing acc with
  | nil => rfl
  | cons slot slots ih =>
    rw [List.length_cons, forSlots, Slot.forEntries_eq, List.map_cons, List.flatten_cons,
      List.foldlM_append]
    exact bind_congr ih

namespace TwoWay

omit [LinearOrder Key] [OrderTop Key] in
theorem slotAt_ok {t : TwoWay Key Value BUCKET} :
    t.slotAt index = .ok slot ↔ t.data[index]? = some slot := by
  unfold slotAt
  split
  next h => simp [h]
  next h => simp [h]

def buckets (t : TwoWay Key Value BUCKET) : Buckets (Key × Value) := t.data.map Slot.entries

def contents (t : TwoWay Key Value BUCKET) : List (Key × Value) := t.buckets.flatten

def InCandidate (p : Target Key Value BUCKET) (t : TwoWay Key Value BUCKET) : Prop :=
  Placed (fun e => p.first t.capacity e.1) (fun e => p.second t.capacity e.1) t.buckets

/-- `fits` is the size of the buffer in bytes: `data` is an array in memory. -/
structure Inv (p : Target Key Value BUCKET) (t : TwoWay Key Value BUCKET) : Prop where
  pow2 : ∃ m, t.capacity.toNat = 2 ^ m
  length : t.data.length = t.capacity.toNat
  fits : p.heap.sizeof.toNat * t.capacity.toNat < 2 ^ 64
  packed : ∀ slot ∈ t.data, slot.Packed
  placed : t.InCandidate p
  size : t.size_.toNat = t.contents.length

section
variable {p : Target Key Value BUCKET} {t : TwoWay Key Value BUCKET}

theorem nth_buckets (h : t.data[i]? = some slot) : t.buckets.nth i = slot.entries := by
  simp [nth, buckets, h]

theorem buckets_set {f : List (Key × Value) → List (Key × Value)} (h : t.data[i]? = some slot)
    (hf : slot'.entries = f slot.entries) :
    (t.data.set i slot').map Slot.entries = t.buckets.modify i f := by
  rw [List.map_set, hf, buckets, List.modify_eq_set_getElem?, List.getElem?_map, h]
  rfl

theorem Inv.capacity_pos (hi : Inv p t) : 0 < t.capacity.toNat := by
  obtain ⟨m, hm⟩ := hi.pow2
  rw [hm]
  exact Nat.two_pow_pos m

theorem Inv.length_buckets (hi : Inv p t) : t.buckets.length = t.capacity.toNat := by
  rw [buckets, List.length_map, hi.length]

theorem Inv.first_lt (hi : Inv p t) (key : Key) : p.first t.capacity key < t.buckets.length := by
  rw [hi.length_buckets]
  exact index1_lt _ hi.capacity_pos

theorem Inv.second_lt (hi : Inv p t) (key : Key) : p.second t.capacity key < t.buckets.length := by
  rw [hi.length_buckets]
  exact index2_lt _ hi.capacity_pos

theorem Inv.slot_exists (hi : Inv p t) (h : i < t.buckets.length) :
    ∃ slot, t.data[i]? = some slot ∧ slot.Packed := by
  have hd : i < t.data.length := by simpa [buckets] using h
  exact ⟨t.data[i], List.getElem?_eq_getElem hd, hi.packed _ (List.getElem_mem hd)⟩

theorem Inv.two_mul_capacity (hi : Inv p t) : (t.capacity * 2).toNat = t.capacity.toNat * 2 := by
  have h2 := p.two_mul_bucket_le
  have hb := p.bucket_pos
  have hle : 2 * t.capacity.toNat ≤ p.heap.sizeof.toNat * t.capacity.toNat :=
    Nat.mul_le_mul_right _ (by omega)
  have hf := hi.fits
  rw [UInt64.toNat_mul]
  exact Nat.mod_eq_of_lt (by simp; omega)

theorem contents_length_le (t : TwoWay Key Value BUCKET) :
    t.contents.length ≤ BUCKET * t.data.length := by
  rw [contents, List.length_flatten]
  have h := List.sum_le_card_nsmul (t.buckets.map List.length) BUCKET (by
    intro n hn
    rw [buckets, List.map_map, List.mem_map] at hn
    obtain ⟨slot, -, rfl⟩ := hn
    exact slot.length_entries_le)
  rw [List.length_map, smul_eq_mul, buckets, List.length_map] at h
  rw [Nat.mul_comm]
  exact h

theorem contents_length_lt (hl : t.data.length = t.capacity.toNat)
    (hf : p.heap.sizeof.toNat * t.capacity.toNat < 2 ^ 64) : t.contents.length < 2 ^ 63 := by
  have hc := t.contents_length_le
  have h2 : 2 * (BUCKET * t.capacity.toNat) ≤ p.heap.sizeof.toNat * t.capacity.toNat := by
    rw [← Nat.mul_assoc]
    exact Nat.mul_le_mul_right _ p.two_mul_bucket_le
  rw [hl] at hc
  omega

theorem Inv.set_slot (hi : Inv p t) {f : List (Key × Value) → List (Key × Value)} {n : UInt64}
    (hs : t.data[i]? = some slot) (hp : slot'.Packed) (hf : slot'.entries = f slot.entries)
    (hplaced : Placed (fun e => p.first t.capacity e.1) (fun e => p.second t.capacity e.1)
      (t.buckets.modify i f))
    (hn : n.toNat = (t.buckets.modify i f).flatten.length) :
    Inv p { t with data := t.data.set i slot', size_ := n } where
  pow2 := hi.pow2
  length := by rw [List.length_set, hi.length]
  fits := hi.fits
  packed := by
    intro s hs'
    rcases List.mem_or_eq_of_mem_set hs' with hs' | rfl
    · exact hi.packed s hs'
    · exact hp
  placed := by
    rw [InCandidate, buckets, buckets_set hs hf]
    exact hplaced
  size := by rw [contents, buckets, buckets_set hs hf, hn]

theorem contents_ne_empty (h : e ∈ t.contents) : e.1 ≠ EMPTY := by
  obtain ⟨b, hb, he⟩ := List.mem_flatten.mp h
  rw [buckets, List.mem_map] at hb
  obtain ⟨slot, -, rfl⟩ := hb
  exact Slot.entries_ne_empty he

end

-- ---------------------------------------------------------------------------
-- Fresh tables
-- ---------------------------------------------------------------------------

structure Fresh (p : Target Key Value BUCKET) (capacity : UInt64) (t : TwoWay Key Value BUCKET) :
    Prop where
  capacity : t.capacity = capacity
  contents : t.contents = []
  inv : Inv p t

section
variable {p : Target Key Value BUCKET} {t : TwoWay Key Value BUCKET}

theorem contents_of_blank {data : List (Slot Key Value BUCKET)} (h : ∀ slot ∈ data, slot.Blank) :
    (data.map Slot.entries).flatten = [] := by
  rw [List.flatten_eq_nil_iff]
  intro b hb
  obtain ⟨slot, hs, rfl⟩ := List.mem_map.mp hb
  exact (h slot hs).2

theorem fresh_of_blank {data : List (Slot Key Value BUCKET)} {capacity : UInt64}
    (h2 : ∃ m, capacity.toNat = 2 ^ m) (hl : data.length = capacity.toNat)
    (hf : p.heap.sizeof.toNat * capacity.toNat < 2 ^ 64) (hb : ∀ slot ∈ data, slot.Blank) :
    Fresh p capacity { data, capacity, size_ := 0 } where
  capacity := rfl
  contents := contents_of_blank hb
  inv := {
    pow2 := h2
    length := hl
    fits := hf
    packed := fun slot hs => (hb slot hs).1
    placed := Buckets.placed_of_empty (contents_of_blank hb)
    size := by rw [contents, buckets, contents_of_blank hb]; rfl }

/-- Blanking all `capacity` slots only succeeds in a block that holds them,
so a size that wrapped on the way to the allocator does not get here. -/
theorem allocate_ok {capacity : UInt64} {data : List (Slot Key Value BUCKET)}
    (h : allocate p capacity = .ok data) :
    data.length = capacity.toNat ∧ p.heap.sizeof.toNat * capacity.toNat < 2 ^ 64 ∧
      ∀ slot ∈ data, slot.Blank := by
  unfold allocate at h
  simp only at h
  obtain ⟨hlen, htake, hblank⟩ := fillEmpty_ok h (List.length_take_le _ _)
  refine ⟨hlen, ?_, hblank⟩
  cases hb : p.heap.alignedAlloc p.heap.CACHE_LINE (p.heap.sizeof * capacity) with
  | none =>
    have h0 : capacity.toNat = 0 := by simpa [hb] using htake.symm
    simp [h0]
  | some block =>
    rw [hb, Option.getD_some, List.length_take, min_eq_left_iff] at htake
    rw [p.heap.length_alloc hb] at htake
    calc p.heap.sizeof.toNat * capacity.toNat
        ≤ p.heap.sizeof.toNat * _ := Nat.mul_le_mul_left _ htake
      _ ≤ _ := Nat.mul_div_le _ _
      _ < 2 ^ 64 := UInt64.toNat_lt _

end

end TwoWay

end BenchHashmaps
