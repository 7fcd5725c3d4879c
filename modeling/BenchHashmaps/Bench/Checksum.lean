import BenchHashmaps.Bench.PassLaws
import BenchHashmaps.TwoWay.Reachable

/-!
# The checksums of the benchmark

Every table filled by `benchmark_twoway` answers each of its keys with the key
itself, so a pass over lookups drawn from the keys returns, and its sum is
theirs. The program never compares the sums; here they are those of
`std::unordered_map`.
-/

namespace BenchHashmaps

open Lib (bind_ok ok_bind exists_ok Run foldlM_ok mapM_total)
open TwoWay (Inv Inserted)

variable {World : Type} {p : Target UInt64 UInt64 4}

-- ---------------------------------------------------------------------------
-- Sums
-- ---------------------------------------------------------------------------

def checksum (linux : Bool) (iters : Nat) (lookups : List UInt64) : Nat :=
  let s := ((lookups.take (iters * (lookups.length / iters))).map UInt64.toNat).sum
  (if linux then 2 * s else s) % 2 ^ 64

theorem toNat_sum (l : List UInt64) : l.sum.toNat = (l.map UInt64.toNat).sum % 2 ^ 64 := by
  induction l with
  | nil => rfl
  | cons a l ih =>
    rw [List.sum_cons, List.map_cons, List.sum_cons, UInt64.toNat_add, ih]
    omega

theorem toNat_passSum (linux : Bool) (iters : Nat) (lookups : List UInt64) :
    (passSum id iters lookups + if linux then passSum id iters lookups else 0).toNat =
      checksum linux iters lookups := by
  have hs : (passSum id iters lookups).toNat =
      ((lookups.take (iters * (lookups.length / iters))).map UInt64.toNat).sum % 2 ^ 64 := by
    rw [passSum, List.map_id, toNat_sum]
  cases linux with
  | false =>
    rw [if_neg Bool.false_ne_true, UInt64.add_zero, hs]
    rfl
  | true =>
    rw [if_pos rfl, UInt64.toNat_add, hs, checksum, if_pos rfl]
    omega

-- ---------------------------------------------------------------------------
-- The maps
-- ---------------------------------------------------------------------------

theorem fillTwoway_ok (hE : EMPTY ∉ keys) (h : fillTwoway p fuel keys = .ok twoway) :
    Inv p twoway ∧ twoway.contents.Perm (keys.map fun key => (key, key)) := by
  rw [fillTwoway, bind_ok] at h
  obtain ⟨t0, h0, h⟩ := h
  have hf := TwoWay.new_ok h0
  have hfold : (keys.map fun key => (key, key)).foldlM (fun t e => t.insert p fuel e.1 e.2) t0 =
      .ok twoway := by
    rw [List.foldlM_map]
    exact h
  have hk : ∀ e ∈ keys.map fun key => (key, key), e.1 ≠ EMPTY := by
    rintro e he hempty
    obtain ⟨key, hkey, rfl⟩ := List.mem_map.mp he
    exact hE (hempty ▸ hkey)
  obtain ⟨hr, -⟩ := TwoWay.copy_run (Inserted p) (fun _ _ _ _ h => h.inv)
    (fun _ _ _ hi hk h => TwoWay.insert_ok hi hk h) (foldlM_ok.mp hfold) hf.inv hk
  obtain ⟨hi, hc, -⟩ := Inserted.run hr hf.inv
  rw [hf.contents, List.append_nil] at hc
  exact ⟨hi, hc⟩

theorem twowayLookup_answers (hE : EMPTY ∉ keys) (h : fillTwoway p fuel keys = .ok twoway) :
    Answers (twowayLookup p twoway : LookupFn World) id keys := by
  obtain ⟨hi, hc⟩ := fillTwoway_ok hE h
  intro key hkey steps world
  have hm : key ∈ twoway.keys :=
    hi.mem_keys.mpr ⟨key, hc.mem_iff.mpr (List.mem_map.mpr ⟨key, hkey, rfl⟩)⟩
  obtain ⟨first, n, value, t', -, -, -, hfind, -, -, he⟩ := TwoWay.found hi hm
  have hvalue : (key, value) ∈ keys.map fun key => (key, key) :=
    hc.mem_iff.mp (he.contents.mem_iff.mpr (by simp))
  obtain ⟨k, -, heq⟩ := List.mem_map.mp hvalue
  cases heq
  exact ⟨_, world, by rw [twowayLookup, hfind, ok_bind]; rfl⟩

theorem getElem?_emplaced {keys : List UInt64} {map : Std.HashMap UInt64 UInt64}
    (hm : ∀ key : UInt64, map[key]? = none ∨ map[key]? = some key)
    (hk : key ∈ keys ∨ map[key]? = some key) :
    (keys.foldl (fun map key => map.insertIfNew key key) map)[key]? = some key := by
  induction keys generalizing map with
  | nil => simpa using hk
  | cons k keys ih =>
    have hget : ∀ x : UInt64, (map.insertIfNew k k)[x]? =
        if k = x ∧ map[k]? = none then some k else map[x]? := by
      intro x
      rw [Std.HashMap.getElem?_insertIfNew]
      simp
    rw [List.foldl_cons]
    refine ih (fun x => ?_) ?_
    · rw [hget]
      split
      next h => rw [h.1]; exact .inr rfl
      next => exact hm x
    · rw [hget, List.mem_cons] at *
      by_cases hkey : key = k
      · subst hkey
        refine .inr ?_
        rcases hm key with h | h <;> simp [h]
      · simpa [hkey, eq_comm] using hk

theorem stdUnorderedMapLookup_answers (keys : List UInt64) :
    Answers (stdUnorderedMapLookup (fillStdUnorderedMap keys) : LookupFn World) id keys := by
  intro key hkey steps world
  have hget : (fillStdUnorderedMap keys)[key]? = some key :=
    getElem?_emplaced (fun _ => .inl (by simp)) (.inl hkey)
  exact ⟨steps, world, by rw [stdUnorderedMapLookup, hget]; rfl⟩

-- ---------------------------------------------------------------------------
-- The inputs
-- ---------------------------------------------------------------------------

theorem makeKeys_ok (h : num_keys < 2 ^ 64 - 1) :
    (makeKeys num_keys).Nodup ∧ EMPTY ∉ makeKeys num_keys := by
  have htoNat : ∀ i < num_keys, (UInt64.ofNat (i + 1)).toNat = i + 1 :=
    fun i hi => UInt64.toNat_ofNat_of_lt' (by simp [UInt64.size]; omega)
  constructor
  · refine List.Nodup.map_on (fun i hi j hj heq => ?_) List.nodup_range
    have hnat := congrArg UInt64.toNat heq
    rw [htoNat i (List.mem_range.mp hi), htoNat j (List.mem_range.mp hj)] at hnat
    omega
  · intro hmem
    obtain ⟨i, hi, heq⟩ := List.mem_map.mp hmem
    have hnat := congrArg UInt64.toNat heq
    rw [htoNat i (List.mem_range.mp hi)] at hnat
    have hlt := List.mem_range.mp hi
    have htop : (EMPTY : UInt64).toNat = 2 ^ 64 - 1 := rfl
    omega

def DrawnFrom (keys : List UInt64) (lookup_sets : List (List UInt64)) : Prop :=
  ∀ lookups ∈ lookup_sets, ∀ key ∈ lookups, key ∈ keys

theorem readAt_mem {i : Nat} (h : i < keys.length) :
    ∃ key, readAt keys 0 i = .ok key ∧ key ∈ keys := by
  refine ⟨keys[i], ?_, List.getElem_mem h⟩
  rw [readAt, Nat.zero_add, List.getElem?_eq_getElem h]

/-- The lookup sets of `main`: one for each batch size, with the lookups of
`ITERS` batches of that size, all for keys that are there. -/
structure LookupSets (keys : List UInt64) (lookup_sets : List (List UInt64)) : Prop where
  drawn : DrawnFrom keys lookup_sets
  lengths : lookup_sets.map List.length = BATCH_SIZE.map (ITERS * ·)
  nonempty : [] ∉ lookup_sets

theorem readAll_ok {keys : List UInt64} {read : Nat → Except Fault UInt64}
    (h : ∀ i, ∃ key, read i = .ok key ∧ key ∈ keys) (n : Nat) :
    ∃ lookups, (List.range n).mapM read = .ok lookups ∧ lookups.length = n ∧
      ∀ key ∈ lookups, key ∈ keys := by
  obtain ⟨lookups, hr, hall⟩ := mapM_total (fun _ key => key ∈ keys) fun i (_ : i ∈ List.range n) =>
    h i
  refine ⟨lookups, hr, by simpa using hall.length_eq.symm, fun key hkey => ?_⟩
  obtain ⟨i, hi, rfl⟩ := List.mem_iff_getElem.mp hkey
  exact hall.get (by rw [hall.length_eq]; exact hi) hi

theorem lookupSets_ok {keys : List UInt64} {make : Nat → Except Fault (List UInt64)}
    (h : ∀ batch_size, ∃ lookups, make batch_size = .ok lookups ∧
      lookups.length = ITERS * batch_size ∧ ∀ key ∈ lookups, key ∈ keys) :
    ∃ lookup_sets, BATCH_SIZE.mapM make = .ok lookup_sets ∧ LookupSets keys lookup_sets := by
  obtain ⟨lookup_sets, hr, hall⟩ := mapM_total (fun batch_size (lookups : List UInt64) =>
    lookups.length = ITERS * batch_size ∧ ∀ key ∈ lookups, key ∈ keys)
    fun batch_size (_ : batch_size ∈ BATCH_SIZE) => h batch_size
  have hlengths : lookup_sets.map List.length = BATCH_SIZE.map (ITERS * ·) := by
    refine (List.forall₂_eq_eq_eq ▸ ?_ : BATCH_SIZE.map (ITERS * ·) = _).symm
    rw [List.forall₂_map_left_iff, List.forall₂_map_right_iff]
    exact hall.imp fun _ _ h => h.1.symm
  refine ⟨lookup_sets, hr, ?_, hlengths, fun hnil => ?_⟩
  · intro lookups hl
    obtain ⟨i, hi, rfl⟩ := List.mem_iff_getElem.mp hl
    exact (hall.get (by rw [hall.length_eq]; exact hi) hi).2
  · have hzero : 0 ∈ BATCH_SIZE.map (ITERS * ·) := hlengths ▸ List.mem_map_of_mem hnil
    revert hzero
    decide

theorem makeRandomLookupSets_ok (h : ∀ batch_size i, draws batch_size i < keys.length) :
    ∃ lookup_sets, makeRandomLookupSets keys draws = .ok lookup_sets ∧
      LookupSets keys lookup_sets :=
  lookupSets_ok fun batch_size => readAll_ok (fun i => readAt_mem (h batch_size i)) _

theorem makeDenseLookupSets_ok (h : keys ≠ []) :
    ∃ lookup_sets, makeDenseLookupSets keys = .ok lookup_sets ∧ LookupSets keys lookup_sets := by
  have hpos : 0 < keys.length := List.length_pos_iff.mpr h
  refine lookupSets_ok fun batch_size => readAll_ok (fun i => ?_) _
  rw [if_neg hpos.ne']
  exact readAt_mem (Nat.mod_lt i hpos)

-- ---------------------------------------------------------------------------
-- The result
-- ---------------------------------------------------------------------------

theorem checksums_of_answers {lookup_fn : LookupFn World} (h : Answers lookup_fn id keys)
    (hdrawn : DrawnFrom keys lookup_sets) (hne : [] ∉ lookup_sets) (hi : 1 ≤ iters) (linux : Bool)
    (recorder : PerfRecorder World) (world : World) :
    ∃ results world', benchmarkSets linux recorder iters lookup_fn lookup_sets [] world =
        .ok (results, world') ∧
      results.map (fun result => result.sum.toNat) = lookup_sets.map (checksum linux iters) := by
  obtain ⟨results, world', hrun, hsum⟩ := Answers.benchmarkSets
    (fun lookups hl => h.subset (hdrawn lookups hl)) hne hi linux recorder [] world
  refine ⟨results, world', hrun, ?_⟩
  rw [List.map_nil, List.nil_append] at hsum
  have hnat := congrArg (List.map UInt64.toNat) hsum
  rw [List.map_map, List.map_map] at hnat
  exact hnat.trans (List.map_congr_left fun lookups _ => toNat_passSum linux iters lookups)

/-- The benchmark of the table returns, so no lookup leaves the span and no
find its bucket; each sum is that of the first `iters * floor(n / iters)`
lookups, twice on Linux, and that of `std::unordered_map`. The span of every
lookup set has an element to take the address of; so have the random and the
dense sets, drawn from the keys. The keys of `main` are as asked for. -/
theorem benchmark_checksums {heap : Heap (Slot UInt64 UInt64 4)} {h : 2 * 4 ≤ heap.sizeof.toNat}
    (hE : EMPTY ∉ keys)
    (hfill : ∃ twoway, fillTwoway (U64ToU64TableTrait.target heap h) fuel keys = .ok twoway)
    (hi : 1 ≤ iters) (linux : Bool) (recorder : PerfRecorder World) (world : World) :
    (∀ lookup_sets, DrawnFrom keys lookup_sets → [] ∉ lookup_sets →
      ∃ results std_results world' world'',
        benchmarkTwoway linux recorder heap h fuel keys lookup_sets iters world =
          .ok (results, world') ∧
        results.map (fun result => result.sum.toNat) = lookup_sets.map (checksum linux iters) ∧
        benchmarkStdUnorderedMap linux recorder keys lookup_sets iters world =
          .ok (std_results, world'') ∧
        results.map BenchResult.sum = std_results.map BenchResult.sum) ∧
    (keys ≠ [] →
      (∃ lookup_sets, makeDenseLookupSets keys = .ok lookup_sets ∧ LookupSets keys lookup_sets) ∧
      ∀ draws, (∀ batch_size i, draws batch_size i < keys.length) →
        ∃ lookup_sets, makeRandomLookupSets keys draws = .ok lookup_sets ∧
          LookupSets keys lookup_sets) ∧
    ∀ num_keys, num_keys < 2 ^ 64 - 1 →
      (makeKeys num_keys).Nodup ∧ EMPTY ∉ makeKeys num_keys := by
  refine ⟨fun lookup_sets hdrawn hne => ?_, fun hnil => ⟨makeDenseLookupSets_ok hnil,
    fun draws hdraws => makeRandomLookupSets_ok hdraws⟩, fun num_keys => makeKeys_ok⟩
  obtain ⟨twoway, hfill⟩ := hfill
  obtain ⟨results, world', hrun, hsum⟩ :=
    checksums_of_answers (twowayLookup_answers hE hfill) hdrawn hne hi linux recorder world
  obtain ⟨std_results, world'', hstd, hstdsum⟩ :=
    checksums_of_answers (stdUnorderedMapLookup_answers keys) hdrawn hne hi linux recorder world
  refine ⟨results, std_results, world', world'', ?_, hsum, hstd, ?_⟩
  · rw [benchmarkTwoway, hfill, ok_bind]
    exact hrun
  · refine List.map_injective_iff.mpr (fun _ _ => UInt64.toNat_inj.mp) ?_
    rw [List.map_map, List.map_map]
    exact hsum.trans hstdsum.symm

/-- Two batches of two on keys whose inserts grow the table, on both passes of a
Linux run. -/
theorem u64_benchmark_checksums : ∃ keys, keys = [10, 18, 28, 33, 46, 54, 56, 65, 89] ∧
    (∃ results,
      benchmarkTwoway true ⟨fun _ world => ({}, world), fun _ world => world, id⟩ u64Target.heap
        (by decide) 2 keys [[89, 10, 89, 54, 65]] 2 () = .ok (results, ()) ∧
      results.map (fun result => result.sum.toNat) = [484]) ∧
    (∃ lookup_sets, makeDenseLookupSets keys = .ok lookup_sets ∧ LookupSets keys lookup_sets) ∧
    (∃ lookup_sets, makeRandomLookupSets keys (fun batch_size i => batch_size * i % 9) =
      .ok lookup_sets ∧ LookupSets keys lookup_sets) ∧
    (makeKeys 3).Nodup ∧ EMPTY ∉ makeKeys 3 := by
  have hfill := exists_ok (x := fillTwoway u64Target 2 [10, 18, 28, 33, 46, 54, 56, 65, 89])
    (by decide +kernel)
  obtain ⟨hsums, hproduced, hmade⟩ := benchmark_checksums (h := by decide) (by decide)
    hfill (show 1 ≤ 2 by decide) true ⟨fun _ world => ({}, world), fun _ world => world, id⟩ ()
  obtain ⟨results, _, _, _, hrun, hsum, -⟩ :=
    hsums [[89, 10, 89, 54, 65]] (by simp [DrawnFrom]) (by decide)
  obtain ⟨hdense, hrandom⟩ := hproduced (List.cons_ne_nil _ _)
  refine ⟨_, rfl, ⟨results, hrun, by rw [hsum]; decide⟩, hdense, ?_, hmade 3 (by decide)⟩
  exact hrandom _ fun batch_size i => Nat.mod_lt _ (by decide)

/-- On an empty lookup set the first round already takes `&lookups[0]`. -/
theorem u64_empty_lookups_overrun :
    ([1] : List UInt64).Nodup ∧ EMPTY ∉ ([1] : List UInt64) ∧
      (∃ twoway, fillTwoway u64Target 1 [1] = .ok twoway) ∧ DrawnFrom [1] [[]] ∧
      benchmarkTwoway true ⟨fun _ world => ({}, world), fun _ world => world, id⟩ u64Target.heap
        (by decide) 1 [1] [[]] 1 () = .error .outOfBounds := by
  obtain ⟨twoway, hfill⟩ := exists_ok (x := fillTwoway u64Target 1 [1]) (by decide +kernel)
  refine ⟨by decide, by decide, ⟨twoway, hfill⟩, by simp [DrawnFrom], ?_⟩
  change (fillTwoway u64Target 1 [1] >>= _) = _
  rw [hfill]
  rfl

end BenchHashmaps
