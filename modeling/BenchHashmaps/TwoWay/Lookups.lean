import BenchHashmaps.TwoWay.Representation
import Mathlib.Order.Bounds.Basic

/-!
# What lookups and erase answer

The results about `find`, `find_indexed`, `contains` and `erase` on the
tables a run can reach: how they agree in answer and in `*steps`, which cell
`erase` takes, and what they do with a key that is not stored.
-/

namespace BenchHashmaps

open Lib (Run)
open Slot (cost)

variable {Key Value : Type} [LinearOrder Key] [OrderTop Key] {BUCKET : Nat}

namespace Op

def inserts (key : Key) : Op Key Value → Bool
  | .insert k _ => k = key
  | _ => false

def erases (key : Key) : Op Key Value → Bool
  | .erase k => k = key
  | _ => false

end Op

namespace TwoWay

def Occurs (p : Target Key Value BUCKET) (t : TwoWay Key Value BUCKET) (key : Key) (n : Nat) :
    Prop :=
  t.keyAt (p.first t.capacity key) n = some key ∨ t.keyAt (p.second t.capacity key) n = some key

/-- The misses before a lookup meets `key` at cell `n`. -/
def lookupCost (p : Target Key Value BUCKET) (t : TwoWay Key Value BUCKET) (key : Key) (n : Nat) :
    Nat :=
  if t.keyAt (p.first t.capacity key) n = some key then 2 * n else 2 * n + 1

section
variable {p : Target Key Value BUCKET} {t t' : TwoWay Key Value BUCKET}

omit [LinearOrder Key] [OrderTop Key] in
theorem Hit.isLeast (h : Hit p t key first n) : IsLeast {n | Occurs p t key n} n := by
  constructor
  · cases first with
    | true => exact .inl h.here
    | false => exact .inr h.here
  · intro m hm
    by_contra hlt
    obtain ⟨h1, h2⟩ := h.before m (Nat.lt_of_not_le hlt)
    exact hm.elim h1 h2

omit [OrderTop Key] in
theorem Hit.cost_eq (h : Hit p t key first n) : cost first n = .ofNat (lookupCost p t key n) := by
  unfold lookupCost
  cases first with
  | true =>
    have here : t.keyAt (p.first t.capacity key) n = some key := h.here
    simp [cost, here]
  | false => simp [cost, h.second rfl]

-- ---------------------------------------------------------------------------
-- The three lookups
-- ---------------------------------------------------------------------------

/-- `find`, `find_indexed` with a hash taken earlier, and `contains` agree in
answer and in cost; an absent key costs two steps for each occupied cell of
the fuller candidate. -/
theorem lookups_agree (h0 : Reachable p t) (hr : Runs p t ops t') (hk : key ≠ EMPTY)
    (steps : UInt64) :
    (∀ n, IsLeast {n | Occurs p t' key n} n → lookupCost p t' key n ≤ 2 * BUCKET - 1 ∧
      contains p t' key steps = .ok (true, steps + .ofNat (lookupCost p t' key n)) ∧
      ∃ value, find p t' key steps = .ok (value, steps + .ofNat (lookupCost p t' key n)) ∧
        findIndexed t' key (indexFor p t key) steps =
          .ok (value, steps + .ofNat (lookupCost p t' key n))) ∧
    (key ∉ t'.keys → contains p t' key steps = .ok (false, steps + .ofNat (2 * max
      (t'.load (p.first t'.capacity key)) (t'.load (p.second t'.capacity key))))) := by
  have hi := hr.inv h0.inv
  constructor
  · intro n hn
    have hm : key ∈ t'.keys := (hi.mem_keys_iff_keyAt hk).mpr ⟨n, hn.1⟩
    obtain ⟨first, m, value, -, hhit, hlt, -, hfind, hcontains, -⟩ := found hi hm
    obtain rfl : m = n := hhit.isLeast.unique hn
    rw [← hhit.cost_eq]
    refine ⟨?_, hcontains steps, value, hfind steps, hfind steps⟩
    unfold lookupCost
    split <;> omega
  · exact fun hm => (missed hi hk hm).2.1 steps

theorem u64_lookups_agree : ∃ t t' n, Reachable u64Target t ∧
    Runs u64Target t [.insert 1 10, .insert 2 20, .grow] t' ∧
      contains u64Target t' 1 0 = .ok (true, 0 + .ofNat (lookupCost u64Target t' 1 n)) := by
  obtain ⟨t, t', h0, hr, ht⟩ := exists_runs u64Target 2
    [.insert 1 10, .insert 2 20, .grow] (fun t => decide (1 ∈ t.keys)) (by decide)
    (by decide +kernel)
  have hreach : Reachable u64Target t := ⟨t, [], h0, .nil⟩
  obtain ⟨first, n, -, -, hhit, -⟩ := found (hr.inv hreach.inv) (of_decide_eq_true ht)
  have hagree := (lookups_agree hreach hr (show (1 : UInt64) ≠ EMPTY by decide) 0).1 n hhit.isLeast
  exact ⟨t, t', n, hreach, hr, hagree.2.1⟩

-- ---------------------------------------------------------------------------
-- Erase
-- ---------------------------------------------------------------------------

/-- The entry `e` at cell `n` of bucket `b` is gone and nothing else changed:
the entries behind it moved up with their values. -/
structure Removed (t : TwoWay Key Value BUCKET) (b n : Nat) (e : Key × Value)
    (t' : TwoWay Key Value BUCKET) : Prop where
  capacity : t'.capacity = t.capacity
  size : t.size.toNat = t'.size.toNat + 1
  pairs : t.pairs = e ::ₘ t'.pairs
  bucket : ∃ slot slot' : Slot Key Value BUCKET, t.data[b]? = some slot ∧
    t'.data = t.data.set b slot' ∧ slot.stored[n]? = some e ∧
    slot'.stored = slot.stored.eraseIdx n ∧
    ∃ m, m ≤ BUCKET ∧ ∀ (i : Nat) (h : i < BUCKET), slot'.keys[i] ≠ EMPTY ↔ i < m

theorem Inv.stored_getElem (hi : Inv p t) (hs : t.data[b]? = some slot) (hk : key ≠ EMPTY)
    (hkey : t.keyAt b n = some key) (hvalue : t.valueAt b n = some value) :
    slot.stored[n]? = some (key, value) := by
  have hp := hi.packed slot (List.mem_of_getElem? hs)
  obtain ⟨hn, rfl⟩ := (keyAt_eq_some hs).mp hkey
  have hl := (hp.key_ne_iff hn).mp hk
  have hv : slot.values[n] = value := by simpa [valueAt, hs, hn] using hvalue
  rw [hp.stored_eq, List.getElem?_eq_getElem hl, Slot.getElem_entries, Slot.cell, hv]

theorem Erased.removed (hi : Inv p t) (h : Erased p t b n (key, value) t') (hk : key ≠ EMPTY)
    (hkey : t.keyAt b n = some key) (hvalue : t.valueAt b n = some value) :
    Removed t b n (key, value) t' := by
  have hpairs := h.pairs hi
  obtain ⟨slot, slot', hs, hdata, he⟩ := h.data
  have hb : b < t.data.length := (List.getElem?_eq_some_iff.mp hs).1
  have hp : slot.Packed := hi.packed slot (List.mem_of_getElem? hs)
  have hp' : slot'.Packed := h.inv.packed slot' (hdata ▸ List.mem_set hb slot')
  refine ⟨h.capacity, ?_, hpairs, slot, slot', hs, hdata, ?_, ?_, Slot.packed_iff.mp hp'⟩
  · rw [hi.size_eq, h.inv.size_eq, hpairs, Multiset.card_cons]
  · exact hi.stored_getElem hs hk hkey hvalue
  · rw [hp'.stored_eq, hp.stored_eq, he]

theorem count_keys_of_cons (h : t'.pairs = (k, value) ::ₘ t.pairs) (key : Key) :
    t'.keys.count key = t.keys.count key + if k = key then 1 else 0 := by
  rw [keys, h, Multiset.map_cons, Multiset.count_cons, ← keys]
  simp only [eq_comm]

theorem Effect.count_keys (hi : Inv p t) (he : Effect p t op t') (hc : op ≠ .clear) (key : Key) :
    t'.keys.count key + (if op.erases key then 1 else 0) =
      t.keys.count key + if op.inserts key then 1 else 0 := by
  cases he with
  | insert _ h =>
    rw [count_keys_of_cons (h.pairs hi) key]
    simp [Op.erases, Op.inserts]
  | erase _ h =>
    rw [count_keys_of_cons (h.pairs hi) key]
    simp [Op.erases, Op.inserts]
  | grow h =>
    rw [keys, h.pairs hi]
    rfl
  | clear h => exact absurd rfl hc

theorem Runs.count_keys (hr : Runs p t ops t') (hi : Inv p t) (hc : .clear ∉ ops) (key : Key) :
    t'.keys.count key + ops.countP (Op.erases key) =
      t.keys.count key + ops.countP (Op.inserts key) := by
  induction hr with
  | nil => rfl
  | @cons t op mid ops t' h _ ih =>
    have he := h.effect hi
    have hop := he.count_keys hi (fun h => hc (by simp [h])) key
    have hrest := ih he.inv fun h => hc (by simp [h])
    rw [List.countP_cons, List.countP_cons]
    omega

/-- `erase` takes the cell `find` stops at and keeps all others. So a key is
contained until it was erased as often as inserted, whatever grows and other
operations happen in between. -/
theorem erase_takes_found (hr : Reachable p t) :
    (∀ key ∈ t.keys, ∃ first n value t', Hit p t key first n ∧ n < BUCKET ∧
      t.valueAt (p.candidate first t.capacity key) n = some value ∧
      (∀ steps, find p t key steps = .ok (value, steps + .ofNat (lookupCost p t key n))) ∧
      erase p t key = .ok t' ∧
      Removed t (p.candidate first t.capacity key) n (key, value) t') ∧
    ∀ key ops t', key ≠ EMPTY → key ∉ t.keys → Runs p t ops t' → .clear ∉ ops →
      t'.keys.count key = ops.countP (Op.inserts key) - ops.countP (Op.erases key) ∧
      ∀ steps, ∃ steps', contains p t' key steps =
        .ok (decide (ops.countP (Op.erases key) < ops.countP (Op.inserts key)), steps') := by
  have hi := hr.inv
  constructor
  · intro key hm
    obtain ⟨first, n, value, t', hhit, hlt, hvalue, hfind, -, herase, he⟩ := found hi hm
    have hremoved := he.removed hi (hi.ne_empty_of_mem_keys hm) hhit.here hvalue
    rw [hhit.cost_eq] at hfind
    exact ⟨first, n, value, t', hhit, hlt, hvalue, hfind, herase, hremoved⟩
  · intro key ops t' hk hm hruns hc
    have hcount := hruns.count_keys hi hc key
    rw [Multiset.count_eq_zero_of_notMem hm] at hcount
    have hmem : key ∈ t'.keys ↔
        ops.countP (Op.erases key) < ops.countP (Op.inserts key) := by
      rw [← Multiset.count_pos]
      omega
    refine ⟨by omega, fun steps => ?_⟩
    obtain ⟨steps', h⟩ := contains_ok (hruns.inv hi) hk steps
    exact ⟨steps', by rw [h, decide_eq_decide.mpr hmem]⟩

theorem u64_erase_takes_found : ∃ t t' value, Reachable u64Target t ∧
    erase u64Target t 1 = .ok t' ∧ t.pairs = (1, value) ::ₘ t'.pairs := by
  obtain ⟨t0, t, h0, hr, ht⟩ := exists_runs u64Target 2
    [.insert 1 10, .insert 1 11, .insert 2 20]
    (fun t => decide (1 ∈ t.keys)) (by decide) (by decide +kernel)
  have hreach : Reachable u64Target t := ⟨t0, _, h0, hr⟩
  obtain ⟨first, n, value, t', -, -, -, -, he, hremoved⟩ :=
    (erase_takes_found hreach).1 1 (of_decide_eq_true ht)
  exact ⟨t, t', value, hreach, he, hremoved.pairs⟩

-- ---------------------------------------------------------------------------
-- Absent keys
-- ---------------------------------------------------------------------------

/-- `find`, `find_indexed` and `erase` stay inside the candidate buckets
exactly when the key is stored; otherwise each reads `keys[BUCKET]`. -/
theorem returns_iff_stored (hr : Reachable p t) (hk : key ≠ EMPTY) (steps : UInt64) :
    (key ∈ t.keys → ∃ value steps' t', find p t key steps = .ok (value, steps') ∧
      findIndexed t key (indexFor p t key) steps = .ok (value, steps') ∧
      erase p t key = .ok t') ∧
    (key ∉ t.keys → find p t key steps = .error .outOfBounds ∧
      findIndexed t key (indexFor p t key) steps = .error .outOfBounds ∧
      erase p t key = .error .outOfBounds) ∧
    ∃ steps', contains p t key steps = .ok (decide (key ∈ t.keys), steps') := by
  have hi := hr.inv
  refine ⟨fun hm => ?_, fun hm => ?_, contains_ok hi hk steps⟩
  · obtain ⟨first, n, value, t', -, -, -, hfind, -, herase, -⟩ := found hi hm
    exact ⟨value, _, t', hfind steps, hfind steps, herase⟩
  · obtain ⟨hfind, -, herase⟩ := missed hi hk hm
    exact ⟨hfind steps, hfind steps, herase⟩

theorem u64_returns_iff_stored : ∃ t, Reachable u64Target t ∧
    (∃ value steps', find u64Target t 1 0 = .ok (value, steps')) ∧
      find u64Target t 2 0 = .error .outOfBounds := by
  obtain ⟨t0, t, h0, hr, ht⟩ := exists_runs u64Target 2
    [.insert 1 10] (fun t => decide (1 ∈ t.keys ∧ 2 ∉ t.keys)) (by decide)
    (by decide +kernel)
  obtain ⟨h1, h2⟩ := of_decide_eq_true ht
  have hreach : Reachable u64Target t := ⟨t0, _, h0, hr⟩
  obtain ⟨value, steps', -, hfind, -⟩ := (returns_iff_stored hreach (by decide) 0).1 h1
  exact ⟨t, hreach, ⟨value, steps', hfind⟩, ((returns_iff_stored hreach (by decide) 0).2.1 h2).1⟩

theorem u64_absent_overruns : ∃ t, Reachable u64Target t ∧ (1 : UInt64) ≠ EMPTY ∧
    (∀ steps, find u64Target t 1 steps = .error .outOfBounds) ∧
    (∀ steps, findIndexed t 1 (indexFor u64Target t 1) steps = .error .outOfBounds) ∧
    erase u64Target t 1 = .error .outOfBounds := by
  obtain ⟨t0, t, h0, hr, ht⟩ := exists_runs u64Target 0 []
    (fun t => decide (1 ∉ t.keys)) (by decide) (by decide +kernel)
  have hreach : Reachable u64Target t := ⟨t0, _, h0, hr⟩
  obtain ⟨hfind, -, herase⟩ := missed hreach.inv (by decide) (of_decide_eq_true ht)
  exact ⟨t, hreach, by decide, hfind, hfind, herase⟩

end

end TwoWay

end BenchHashmaps
