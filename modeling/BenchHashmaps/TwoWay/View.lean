import BenchHashmaps.TwoWay.InsertLaws
import Mathlib.Algebra.BigOperators.Group.Multiset.Basic

/-!
# What a table holds, cell by cell

The observations the results are stated in: the key and value of a cell, the
load of a bucket, and the multiset of stored pairs. They read the arrays as
they are; on a table that keeps the invariant they agree with its buckets.
-/

namespace BenchHashmaps

open Lib (Buckets)
open Lib.Buckets (nth mem_flatten_iff)

variable {Key Value : Type} {BUCKET : Nat}

def Slot.stored [LinearOrder Key] [OrderTop Key] (slot : Slot Key Value BUCKET) :
    List (Key × Value) :=
  slot.cells.filter Slot.occupied

theorem Slot.Packed.stored_eq [LinearOrder Key] [OrderTop Key] {slot : Slot Key Value BUCKET}
    (hp : slot.Packed) : slot.stored = slot.entries :=
  Lib.Packed.filter_eq hp

namespace TwoWay

def keyAt (t : TwoWay Key Value BUCKET) (b n : Nat) : Option Key :=
  t.data[b]?.bind fun slot => slot.keys[n]?

def valueAt (t : TwoWay Key Value BUCKET) (b n : Nat) : Option Value :=
  t.data[b]?.bind fun slot => slot.values[n]?

theorem keyAt_eq_some {t : TwoWay Key Value BUCKET} {key : Key} (h : t.data[b]? = some slot) :
    t.keyAt b n = some key ↔ ∃ hn : n < BUCKET, slot.keys[n] = key := by
  simp [keyAt, h, Vector.getElem?_eq_some_iff]

variable [LinearOrder Key] [OrderTop Key]

def load (t : TwoWay Key Value BUCKET) (b : Nat) : Nat :=
  match t.data[b]? with
  | some slot => slot.stored.length
  | none => 0

/-- Every occupied cell of the table, as a key with its value. -/
def pairs (t : TwoWay Key Value BUCKET) : Multiset (Key × Value) :=
  ↑(t.data.map Slot.stored).flatten

def keys (t : TwoWay Key Value BUCKET) : Multiset Key := t.pairs.map Prod.fst

section
variable {p : Target Key Value BUCKET} {t : TwoWay Key Value BUCKET}

theorem pairs_eq (hp : ∀ slot ∈ t.data, slot.Packed) : t.pairs = ↑t.contents := by
  rw [pairs, contents, buckets]
  congr 2
  exact List.map_congr_left fun slot hs => (hp slot hs).stored_eq

theorem Inv.pairs_eq (hi : Inv p t) : t.pairs = ↑t.contents := TwoWay.pairs_eq hi.packed

omit [LinearOrder Key] [OrderTop Key] in
theorem foldlM_sum [AddCommMonoid Value] (l : List (Key × Value)) (acc : Value) :
    l.foldlM (fun sum e => (.ok (sum + e.2) : Except Fault Value)) acc =
      .ok (acc + (l.map Prod.snd).sum) := by
  induction l generalizing acc with
  | nil => simp [pure, Except.pure]
  | cons e l ih =>
    rw [List.foldlM_cons, List.map_cons, List.sum_cons, ← add_assoc]
    exact ih _

theorem Inv.sumAllValues_eq [AddCommMonoid Value] (hi : Inv p t) :
    t.sumAllValues = .ok (t.pairs.map Prod.snd).sum := by
  rw [sumAllValues, ← hi.length, forSlots_eq, hi.pairs_eq, Multiset.map_coe, Multiset.sum_coe]
  exact (foldlM_sum t.contents 0).trans (by rw [zero_add])

theorem Inv.load_eq (hi : Inv p t) (b : Nat) : t.load b = (t.buckets.nth b).length := by
  unfold load
  split
  next slot hs =>
    rw [nth_buckets hs, (hi.packed slot (List.mem_of_getElem? hs)).stored_eq]
  next hs => simp [nth, buckets, hs]

theorem Inv.mem_keys (hi : Inv p t) : key ∈ t.keys ↔ ∃ value, (key, value) ∈ t.contents := by
  rw [keys, hi.pairs_eq]
  simp

theorem Inv.ne_empty_of_mem_keys (hi : Inv p t) (h : key ∈ t.keys) : key ≠ EMPTY := by
  obtain ⟨value, hv⟩ := hi.mem_keys.mp h
  exact contents_ne_empty hv

theorem Inv.empty_notMem_keys (hi : Inv p t) : EMPTY ∉ t.keys :=
  fun h => hi.ne_empty_of_mem_keys h rfl

theorem keyAt_iff (hp : ∀ slot ∈ t.data, slot.Packed) (hk : key ≠ EMPTY) :
    t.keyAt b n = some key ↔ ∃ value, (t.buckets.nth b)[n]? = some (key, value) := by
  cases hs : t.data[b]? with
  | none => simp [keyAt, nth, buckets, hs]
  | some slot =>
    have hp := hp slot (List.mem_of_getElem? hs)
    rw [keyAt_eq_some hs, nth_buckets hs]
    constructor
    · rintro ⟨hn, rfl⟩
      have hl := (hp.key_ne_iff hn).mp hk
      exact ⟨slot.values[n], by rw [List.getElem?_eq_getElem hl, Slot.getElem_entries, Slot.cell]⟩
    · rintro ⟨value, hv⟩
      obtain ⟨hl, hv⟩ := List.getElem?_eq_some_iff.mp hv
      rw [Slot.getElem_entries slot hl] at hv
      exact ⟨hl.trans_le slot.length_entries_le, congrArg Prod.fst hv⟩

theorem Inv.keyAt_iff (hi : Inv p t) (hk : key ≠ EMPTY) :
    t.keyAt b n = some key ↔ ∃ value, (t.buckets.nth b)[n]? = some (key, value) :=
  TwoWay.keyAt_iff hi.packed hk

theorem Inv.mem_keys_iff_keyAt (hi : Inv p t) (hk : key ≠ EMPTY) : key ∈ t.keys ↔
    ∃ n, t.keyAt (p.first t.capacity key) n = some key ∨
      t.keyAt (p.second t.capacity key) n = some key := by
  rw [hi.mem_keys]
  simp only [hi.keyAt_iff hk]
  constructor
  · rintro ⟨value, hv⟩
    obtain ⟨b, hb⟩ := mem_flatten_iff.mp hv
    obtain ⟨n, hn⟩ := List.mem_iff_getElem?.mp hb
    rcases hi.placed b _ hb with rfl | rfl
    · exact ⟨n, .inl ⟨value, hn⟩⟩
    · exact ⟨n, .inr ⟨value, hn⟩⟩
  · rintro ⟨n, ⟨value, hv⟩ | ⟨value, hv⟩⟩
    · exact ⟨value, mem_flatten_iff.mpr ⟨_, List.mem_of_getElem? hv⟩⟩
    · exact ⟨value, mem_flatten_iff.mpr ⟨_, List.mem_of_getElem? hv⟩⟩

end

end TwoWay

end BenchHashmaps
