import BenchHashmaps.TwoWay.View

/-!
# Lookups and erase

`find`, `find_indexed`, `contains` and `erase` scan the two candidate buckets
in one order and meet a stored key at the same cell (`found`); `erase` then
closes the gap there. For a key that is not stored only `contains` returns
(`missed`): the other loops run past the last cell.
-/

namespace BenchHashmaps

open Lib (Buckets)
open Lib.Buckets (nth)
open Slot (probe pick cost probe_some probe_none)

variable {Key Value : Type} [LinearOrder Key] [OrderTop Key] {BUCKET : Nat}

/-- The candidate bucket a scan looks at first, or the other one. -/
def Target.candidate (p : Target Key Value BUCKET) (first : Bool) (capacity : UInt64) (key : Key) :
    Nat :=
  if first then p.first capacity key else p.second capacity key

namespace TwoWay

/-- The scan of the candidate buckets first meets `key` at cell `n` of the
one `first` tells. -/
structure Hit (p : Target Key Value BUCKET) (t : TwoWay Key Value BUCKET) (key : Key) (first : Bool)
    (n : Nat) : Prop where
  here : t.keyAt (p.candidate first t.capacity key) n = some key
  before : ∀ m < n, t.keyAt (p.first t.capacity key) m ≠ some key ∧
    t.keyAt (p.second t.capacity key) m ≠ some key
  second : first = false → t.keyAt (p.first t.capacity key) n ≠ some key

structure Erased (p : Target Key Value BUCKET) (t : TwoWay Key Value BUCKET) (b n : Nat)
    (e : Key × Value) (t' : TwoWay Key Value BUCKET) : Prop where
  inv : Inv p t'
  capacity : t'.capacity = t.capacity
  contents : t.contents.Perm (e :: t'.contents)
  data : ∃ slot slot', t.data[b]? = some slot ∧ t'.data = t.data.set b slot' ∧
    slot'.entries = slot.entries.eraseIdx n

section
variable {p : Target Key Value BUCKET} {t : TwoWay Key Value BUCKET}

theorem discard_ok (hi : Inv p t) (hs : t.data[b]? = some slot) (hn : n < slot.entries.length) :
    Erased p t b n slot.entries[n] (t.discard b slot n) := by
  obtain ⟨hp', he'⟩ := (hi.packed slot (List.mem_of_getElem? hs)).remove hn
  have hb : (t.discard b slot n).buckets = t.buckets.removeAt b n := buckets_set hs he'
  have hlt : b < t.buckets.length := by
    simpa [buckets] using (List.getElem?_eq_some_iff.mp hs).1
  have hperm : t.contents.Perm (slot.entries[n] :: (t.discard b slot n).contents) := by
    have hn' : n < (t.buckets.nth b).length := by rwa [nth_buckets hs]
    have h := Lib.Buckets.flatten_removeAt hlt hn'
    rw [List.getElem_of_eq (nth_buckets hs), ← hb] at h
    exact h
  refine ⟨?_, rfl, hperm, slot, slot.remove n, hs, rfl, he'⟩
  refine hi.set_slot hs hp' he' hi.placed.removeAt ?_
  have hlen := hperm.length_eq
  rw [List.length_cons, ← hi.size] at hlen
  change (t.size_ - 1).toNat = (t.buckets.removeAt b n).flatten.length
  rw [← hb, UInt64.toNat_sub_of_le _ _ (UInt64.le_iff_toNat_le.mpr (by simp; omega))]
  change t.size_.toNat - 1 = (t.discard b slot n).contents.length
  omega

-- ---------------------------------------------------------------------------
-- The scans
-- ---------------------------------------------------------------------------

variable {slot1 slot2 : Slot Key Value BUCKET}

omit [OrderTop Key] in
theorem findIndexed_eq {hash : UInt64} (hs1 : t.data[index1 hash t.capacity]? = some slot1)
    (hs2 : t.data[index2 hash t.capacity]? = some slot2) (steps : UInt64) :
    t.findIndexed key hash steps = Slot.result slot1 slot2 steps (probe slot1 slot2 key 0) := by
  have h := Slot.findLoop_eq slot1 slot2 key 0 steps
  rw [Slot.add_no_steps] at h
  rw [findIndexed, slotAt_ok.mpr hs1, slotAt_ok.mpr hs2]
  exact h

theorem contains_eq (hs1 : t.data[p.first t.capacity key]? = some slot1)
    (hs2 : t.data[p.second t.capacity key]? = some slot2) (hp1 : slot1.Packed)
    (hp2 : slot2.Packed) (hk : key ≠ EMPTY) (steps : UInt64) :
    contains p t key steps = .ok (match probe slot1 slot2 key 0 with
      | some (first, n) => (true, steps + cost first n)
      | none => (false, steps + .ofNat (2 * max slot1.entries.length slot2.entries.length))) := by
  have h := Slot.containsLoop_eq (i := 0) hp1 hp2 hk steps
  rw [Slot.add_no_steps, Nat.zero_max] at h
  rw [contains, show t.slotAt (index1 (p.hash key) t.capacity) = _ from slotAt_ok.mpr hs1,
    show t.slotAt (index2 (p.hash key) t.capacity) = _ from slotAt_ok.mpr hs2]
  exact congrArg Except.ok h

theorem eraseLoop_eq (t : TwoWay Key Value BUCKET) (p : Target Key Value BUCKET) (i : Nat) :
    t.eraseLoop (p.hash key) slot1 slot2 key i = match probe slot1 slot2 key i with
      | some (first, n) =>
        .ok (t.discard (p.candidate first t.capacity key) (pick first slot1 slot2) n)
      | none => .error .outOfBounds := by
  fun_induction probe slot1 slot2 key i with
  | case1 i hi h1 =>
    rw [eraseLoop, dif_pos hi, if_pos h1]
    rfl
  | case2 i hi h1 h2 =>
    rw [eraseLoop, dif_pos hi, if_neg h1, if_pos h2]
    rfl
  | case3 i hi h1 h2 ih => rw [eraseLoop, dif_pos hi, if_neg h1, if_neg h2, ih]
  | case4 i hi => rw [eraseLoop, dif_neg hi]

theorem erase_eq (hs1 : t.data[p.first t.capacity key]? = some slot1)
    (hs2 : t.data[p.second t.capacity key]? = some slot2) :
    erase p t key = match probe slot1 slot2 key 0 with
      | some (first, n) =>
        .ok (t.discard (p.candidate first t.capacity key) (pick first slot1 slot2) n)
      | none => .error .outOfBounds := by
  rw [erase, show t.slotAt (index1 (p.hash key) t.capacity) = _ from slotAt_ok.mpr hs1,
    show t.slotAt (index2 (p.hash key) t.capacity) = _ from slotAt_ok.mpr hs2]
  exact eraseLoop_eq t p 0

omit [OrderTop Key] in
theorem probe_hit (hs1 : t.data[p.first t.capacity key]? = some slot1)
    (hs2 : t.data[p.second t.capacity key]? = some slot2)
    (h : probe slot1 slot2 key 0 = some (first, n)) :
    Hit p t key first n ∧
      t.data[p.candidate first t.capacity key]? = some (pick first slot1 slot2) := by
  obtain ⟨-, hn, hb, hf⟩ := probe_some h
  have hslot : t.data[p.candidate first t.capacity key]? = some (pick first slot1 slot2) := by
    cases first
    · exact hs2
    · exact hs1
  refine ⟨⟨(keyAt_eq_some hslot).mpr ⟨n.isLt, hn⟩, fun m hm => ?_, fun hfirst => ?_⟩, hslot⟩
  · rw [ne_eq, ne_eq, keyAt_eq_some hs1, keyAt_eq_some hs2]
    exact ⟨fun ⟨_, h⟩ => (hb m hm (Nat.zero_le m)).1 h, fun ⟨_, h⟩ => (hb m hm (Nat.zero_le m)).2 h⟩
  · rw [ne_eq, keyAt_eq_some hs1]
    exact fun ⟨_, h⟩ => hf hfirst h

theorem probe_miss (hi : Inv p t) (hk : key ≠ EMPTY)
    (hs1 : t.data[p.first t.capacity key]? = some slot1)
    (hs2 : t.data[p.second t.capacity key]? = some slot2) :
    probe slot1 slot2 key 0 = none ↔ key ∉ t.keys := by
  rw [probe_none, hi.mem_keys_iff_keyAt hk]
  simp only [keyAt_eq_some hs1, keyAt_eq_some hs2]
  constructor
  · rintro h ⟨n, ⟨hn, hkey⟩ | ⟨hn, hkey⟩⟩
    · exact (h n hn (Nat.zero_le n)).1 hkey
    · exact (h n hn (Nat.zero_le n)).2 hkey
  · exact fun h m hm _ => ⟨fun hkey => h ⟨m, .inl ⟨hm, hkey⟩⟩, fun hkey => h ⟨m, .inr ⟨hm, hkey⟩⟩⟩

theorem Inv.candidates (hi : Inv p t) (key : Key) : ∃ slot1 slot2 : Slot Key Value BUCKET,
    t.data[p.first t.capacity key]? = some slot1 ∧ t.data[p.second t.capacity key]? = some slot2 ∧
      slot1.Packed ∧ slot2.Packed := by
  obtain ⟨slot1, hs1, hp1⟩ := hi.slot_exists (hi.first_lt key)
  obtain ⟨slot2, hs2, hp2⟩ := hi.slot_exists (hi.second_lt key)
  exact ⟨slot1, slot2, hs1, hs2, hp1, hp2⟩

-- ---------------------------------------------------------------------------
-- Stored keys and absent keys
-- ---------------------------------------------------------------------------

theorem found (hi : Inv p t) (hm : key ∈ t.keys) :
    ∃ first n value t', Hit p t key first n ∧ n < BUCKET ∧
      t.valueAt (p.candidate first t.capacity key) n = some value ∧
      (∀ steps, find p t key steps = .ok (value, steps + cost first n)) ∧
      (∀ steps, contains p t key steps = .ok (true, steps + cost first n)) ∧
      erase p t key = .ok t' ∧
      Erased p t (p.candidate first t.capacity key) n (key, value) t' := by
  have hk := hi.ne_empty_of_mem_keys hm
  obtain ⟨slot1, slot2, hs1, hs2, hp1, hp2⟩ := hi.candidates key
  cases hprobe : probe slot1 slot2 key 0 with
  | none => exact absurd hm ((probe_miss hi hk hs1 hs2).mp hprobe)
  | some hit =>
    obtain ⟨first, n⟩ := hit
    obtain ⟨hhit, hslot⟩ := probe_hit hs1 hs2 hprobe
    have hkey : (pick first slot1 slot2).keys[n] = key := (probe_some hprobe).2.1
    have hlive : n < (pick first slot1 slot2).entries.length :=
      ((hi.packed _ (List.mem_of_getElem? hslot)).key_ne_iff n.isLt).mp (hkey ▸ hk)
    have hentry : (pick first slot1 slot2).entries[n.val] =
        (key, (pick first slot1 slot2).values[n]) := by
      rw [Slot.getElem_entries _ hlive]
      exact Prod.ext hkey rfl
    refine ⟨first, n, (pick first slot1 slot2).values[n], _, hhit, n.isLt, ?_, fun steps => ?_,
      fun steps => ?_, ?_, hentry ▸ discard_ok hi hslot hlive⟩
    · simp [valueAt, hslot]
    · exact (findIndexed_eq hs1 hs2 steps).trans (by rw [hprobe]; rfl)
    · rw [contains_eq hs1 hs2 hp1 hp2 hk, hprobe]
    · rw [erase_eq hs1 hs2, hprobe]

/-- The scans without a bound read cell `BUCKET`. -/
theorem missed (hi : Inv p t) (hk : key ≠ EMPTY) (hm : key ∉ t.keys) :
    (∀ steps, find p t key steps = .error .outOfBounds) ∧
      (∀ steps, contains p t key steps = .ok (false, steps + .ofNat (2 * max
        (t.load (p.first t.capacity key)) (t.load (p.second t.capacity key))))) ∧
      erase p t key = .error .outOfBounds := by
  obtain ⟨slot1, slot2, hs1, hs2, hp1, hp2⟩ := hi.candidates key
  have hprobe := (probe_miss hi hk hs1 hs2).mpr hm
  refine ⟨fun steps => ?_, fun steps => ?_, ?_⟩
  · exact (findIndexed_eq hs1 hs2 steps).trans (by rw [hprobe]; rfl)
  · rw [contains_eq hs1 hs2 hp1 hp2 hk, hprobe, hi.load_eq, hi.load_eq, nth_buckets hs1,
      nth_buckets hs2]
  · rw [erase_eq hs1 hs2, hprobe]

theorem contains_ok (hi : Inv p t) (hk : key ≠ EMPTY) (steps : UInt64) :
    ∃ steps', contains p t key steps = .ok (decide (key ∈ t.keys), steps') := by
  by_cases hm : key ∈ t.keys
  · obtain ⟨first, n, value, -, -, -, -, -, hcontains, -⟩ := found hi hm
    exact ⟨_, by rw [hcontains, decide_eq_true hm]⟩
  · exact ⟨_, by rw [(missed hi hk hm).2.1, decide_eq_false hm]⟩

end

end TwoWay

end BenchHashmaps
