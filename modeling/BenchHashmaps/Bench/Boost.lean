import BenchHashmaps.Bench.Checksum
import BenchHashmaps.Boost.Mulx
import BenchHashmaps.Boost.Reserve

/-!
# The benchmark of the flat map

`benchmark_boost` of `bench.hpp`. The map reserves twice the room its keys
need, so only that call of `reserve` and the one for the results can throw; what
the lookups add up is what they add up on `std::unordered_map`.
-/

namespace BenchHashmaps

open Boost (Table Policy pairPolicy Allocator Exit Group15 mulx sizeForLoad sizeForLoad_next
  levelFor_le)
open Boost.Group15 (Layout)
open Lib (bind_ok ok_bind exists_ok)

variable {World γ : Type}

-- ---------------------------------------------------------------------------
-- The map
-- ---------------------------------------------------------------------------

/-- `boost::hash<uint64_t>` is the identity and not avalanching, so that it is
mixed with `mulx`. -/
def boostPolicy : Policy UInt64 UInt64 := pairPolicy mulx

variable [Group15 γ]

def emplaceKey (al : Nat → Allocator boostPolicy.sizeofValue) (fuel : Nat)
    (map : Table γ UInt64 UInt64) (key : UInt64 × Nat) : Except Exit (Table γ UInt64 UInt64) := do
  let (map, _) ← (map.emplace boostPolicy (al key.2) fuel (key.1, key.1)).mapError Prod.fst
  .ok map

/-- The map of `benchmark_boost` after its `emplace` calls; `al i` is the
allocator the `i`-th call finds. What a call that throws leaves of the map is
destroyed with it. -/
def fillBoost (al : Nat → Allocator boostPolicy.sizeofValue) (fuel : Nat) (keys : List UInt64) :
    Except Exit (Table γ UInt64 UInt64) := do
  let map ← (Table.empty.reserve boostPolicy (al 0) fuel (.ofNat keys.length * 2)).mapError Prod.fst
  (keys.zipIdx 1).foldlM (emplaceKey al fuel) map

/-- `it->second` of an absent key dereferences `end()`. `find` allocates
nothing. -/
def boostLookup (fuel : Nat) (map : Table γ UInt64 UInt64) : LookupFn World :=
  fun key steps world =>
    match map.value boostPolicy fuel key with
    | .ok (some value) => .ok (value, steps, world)
    | .ok none => .error .outOfBounds
    | .error (.fault fault) => .error fault
    | .error _ => .error .outOfBounds

structure VectorMemory where
  max_size : Nat
  allocates : Nat → Bool

/-- `results.reserve(n)`, on a new vector. -/
def VectorMemory.reserve (memory : VectorMemory) (n : Nat) : Except Exit Unit :=
  if memory.max_size < n then .error .lengthError
  else if n ≠ 0 ∧ !memory.allocates n then .error .badAlloc
  else .ok ()

def benchmarkBoost (γ : Type) [Group15 γ] (linux : Bool) (recorder : PerfRecorder World)
    (al : Nat → Allocator boostPolicy.sizeofValue) (memory : VectorMemory) (fuel : Nat)
    (keys : List UInt64) (lookup_sets : List (List UInt64)) (iters : Nat) (world : World) :
    Except Exit (List BenchResult × World) := do
  let map : Table γ UInt64 UInt64 ← fillBoost al fuel keys
  memory.reserve lookup_sets.length
  (benchmarkSets linux recorder iters (boostLookup fuel map) lookup_sets [] world).mapError .fault

-- ---------------------------------------------------------------------------
-- Filling
-- ---------------------------------------------------------------------------

variable [Layout γ] {al : Nat → Allocator boostPolicy.sizeofValue} {fuel : Nat}
  {map : Table γ UInt64 UInt64} {keys : List UInt64}

theorem reserve_fits (h : keys.length ≤ 2 ^ 48) :
    (Boost.Op.reserve (.ofNat keys.length * 2) : Boost.Op UInt64 UInt64).Fits boostPolicy := by
  have hx : (UInt64.ofNat keys.length * 2).toNat ≤ 16 * 2 ^ 45 := by
    rw [UInt64.toNat_mul, UInt64.toNat_ofNat', show (2 : UInt64).toNat = 2 from rfl]
    omega
  obtain ⟨m, hm, hle⟩ := sizeForLoad_next hx (by decide)
  refine ⟨m, hm, ?_⟩
  have hlevel : Boost.levelFor m.toNat ≤ 46 := levelFor_le (by decide) (by omega)
  have hpow : 2 ^ Boost.levelFor m.toNat ≤ 2 ^ 46 := Nat.pow_le_pow_right (by decide) hlevel
  rw [Policy.Fits, show boostPolicy.sizeofValue.toNat = 16 from rfl]
  omega

theorem emplaceKey_spec (h : map.Filled boostPolicy level) (hlt : map.size.toNat < map.ml.toNat)
    (hself : ∀ e ∈ map.contents, e.2 = e.1) (key : UInt64 × Nat) (hfuel : 2 ^ 64 ≤ fuel) :
    ∃ map', emplaceKey al fuel map key = .ok map' ∧ map'.Filled boostPolicy level ∧
      map'.ml = map.ml ∧ map'.size.toNat ≤ map.size.toNat + 1 ∧
      ∀ e, e ∈ map'.contents ↔ e = (key.1, key.1) ∨ e ∈ map.contents := by
  obtain ⟨⟨map', loc, inserted⟩, hr, hspec, hfilled, hml, hsize⟩ :=
    h.emplace_in_place (al key.2) (key.1, key.1) (UInt64.lt_iff_toNat_lt.mpr hlt) hfuel
  refine ⟨map', by rw [emplaceKey, hr]; rfl, hfilled, hml, hsize, fun e => ?_⟩
  cases hspec with
  | @found v loc hmem _ =>
    obtain rfl : v = key.1 := hself _ hmem
    exact ⟨.inr, fun he => he.elim (fun heq => heq ▸ hmem) id⟩
  | inserted _ _ hc _ _ => rw [hc, Multiset.mem_cons]

theorem emplaceKeys_spec (h : map.Filled boostPolicy level)
    (hself : ∀ e ∈ map.contents, e.2 = e.1) {calls : List (UInt64 × Nat)}
    (hroom : map.size.toNat + calls.length ≤ map.ml.toNat) (hfuel : 2 ^ 64 ≤ fuel) :
    ∃ map', calls.foldlM (emplaceKey al fuel) map = .ok map' ∧ map'.Filled boostPolicy level ∧
      ∀ e, e ∈ map'.contents ↔ (∃ key ∈ calls, e = (key.1, key.1)) ∨ e ∈ map.contents := by
  induction calls generalizing map with
  | nil => exact ⟨map, rfl, h, by simp⟩
  | cons key calls ih =>
    rw [List.length_cons] at hroom
    obtain ⟨map₁, hr, hfilled, hml, hsize, hc⟩ := emplaceKey_spec h (by omega) hself key hfuel
    have hself₁ : ∀ e ∈ map₁.contents, e.2 = e.1 := by
      intro e he
      rcases (hc e).mp he with rfl | he
      · rfl
      · exact hself e he
    obtain ⟨map', hfold, hfilled', hc'⟩ := ih hfilled hself₁ (by rw [hml]; omega)
    refine ⟨map', by rw [List.foldlM_cons, hr, ok_bind, hfold], hfilled', fun e => ?_⟩
    rw [hc', hc, List.exists_mem_cons_iff, or_left_comm, or_assoc]

/-- Either there is no memory for the arrays at the start, or the map gets all
keys into those arrays. -/
theorem fillBoost_spec (al : Nat → Allocator boostPolicy.sizeofValue)
    (h : keys.length ≤ 2 ^ 48) (hfuel : 2 ^ 64 ≤ fuel) :
    (Table.empty : Table γ UInt64 UInt64).reserve boostPolicy (al 0) fuel (.ofNat keys.length * 2) =
        .error (.badAlloc, .empty) ∨
      ∃ map : Table γ UInt64 UInt64, fillBoost al fuel keys = .ok map ∧ map.Ok boostPolicy ∧
        ∀ e, e ∈ map.contents ↔ e.2 = e.1 ∧ e.1 ∈ keys := by
  have hlen : (UInt64.ofNat keys.length * 2).toNat = 2 * keys.length := by
    rw [UInt64.toNat_mul, UInt64.toNat_ofNat', show (2 : UInt64).toNat = 2 from rfl]
    omega
  have hempty : (Table.empty : Table γ UInt64 UInt64).Ok boostPolicy := Table.empty_ok
  by_cases hnil : keys = []
  · subst hnil
    obtain ⟨m, hm, hmfits⟩ := reserve_fits h
    rcases hempty.reserve_spec (al 0) hm hmfits hfuel with hbad | ⟨map, hmap, hre⟩
    · exact .inl hbad
    · refine .inr ⟨map, by rw [fillBoost, hmap]; rfl, hre.ok, fun e => ?_⟩
      rw [hre.contents]
      simp [Table.contents, Table.empty, Boost.Arrays.contents, Lib.contents]
  · have hpos := List.length_pos_iff.mpr hnil
    have hne : UInt64.ofNat keys.length * 2 ≠ 0 := by
      intro hzero
      rw [hzero] at hlen
      have : (0 : UInt64).toNat = 0 := rfl
      omega
    rcases hempty.reserve_room rfl (al 0) (reserve_fits h) hne hfuel with
      hbad | ⟨map, level, hmap, hfilled, hc, hroom⟩
    · exact .inl hbad
    · have hzero : map.contents = 0 := hc
      have hsize : map.size.toNat = 0 := by rw [hfilled.size_eq, hzero, Multiset.card_zero]
      have hlast : map.size.toNat + (keys.zipIdx 1).length ≤ map.ml.toNat := by
        rw [List.length_zipIdx]
        omega
      obtain ⟨map', hfold, hfilled', hc'⟩ := emplaceKeys_spec hfilled
        (by simp [hzero]) hlast hfuel
      refine .inr ⟨map', by rw [fillBoost, hmap]; exact hfold, .inr ⟨level, hfilled'⟩,
        fun e => ?_⟩
      rw [hc', hzero]
      constructor
      · rintro (⟨key, hkey, rfl⟩ | hmem)
        · exact ⟨rfl, List.fst_mem_of_mem_zipIdx hkey⟩
        · exact absurd hmem (Multiset.notMem_zero e)
      · rintro ⟨hself, hmem⟩
        rw [← List.zipIdx_map_fst 1 keys] at hmem
        obtain ⟨key, hkey, heq⟩ := List.mem_map.mp hmem
        exact .inl ⟨key, hkey, Prod.ext heq.symm (hself.trans heq.symm)⟩

-- ---------------------------------------------------------------------------
-- Looking up
-- ---------------------------------------------------------------------------

theorem boostLookup_eq (h : map.Ok boostPolicy)
    (hc : ∀ e, e ∈ map.contents ↔ e.2 = e.1 ∧ e.1 ∈ keys) (hfuel : 2 ^ 64 ≤ fuel)
    (key steps : UInt64)
    (world : World) : boostLookup fuel map key steps world =
      if key ∈ keys then .ok (key, steps, world) else .error .outOfBounds := by
  obtain ⟨r, hr, hspec⟩ := h.value_spec key hfuel
  rw [boostLookup, hr]
  cases r with
  | none =>
    have habsent : key ∉ keys := by
      intro hkey
      cases (hspec key).mpr ((hc _).mpr ⟨rfl, hkey⟩)
    rw [if_neg habsent]
  | some v =>
    obtain ⟨hv, hkey⟩ := (hc _).mp ((hspec v).mp rfl)
    obtain rfl : v = key := hv
    rw [if_pos hkey]

theorem boostLookup_answers (h : map.Ok boostPolicy)
    (hc : ∀ e, e ∈ map.contents ↔ e.2 = e.1 ∧ e.1 ∈ keys) (hfuel : 2 ^ 64 ≤ fuel) :
    Answers (boostLookup fuel map : LookupFn World) id keys := by
  intro key hkey steps world
  exact ⟨steps, world, by rw [boostLookup_eq h hc hfuel, if_pos hkey]; rfl⟩

-- ---------------------------------------------------------------------------
-- The result
-- ---------------------------------------------------------------------------

/-- The sums of `benchmark_boost` are those of `std::unordered_map`. Only the two
calls of `reserve` can throw, whatever memory there is for the others. -/
theorem boost_checksums (hkeys : keys.length ≤ 2 ^ 48) (hi : 1 ≤ iters) (hfuel : 2 ^ 64 ≤ fuel)
    (al : Nat → Allocator boostPolicy.sizeofValue) (memory : VectorMemory) (linux : Bool)
    (recorder : PerfRecorder World) (world : World) (hdrawn : DrawnFrom keys lookup_sets)
    (hne : [] ∉ lookup_sets) :
    (Table.empty : Table γ UInt64 UInt64).reserve boostPolicy (al 0) fuel (.ofNat keys.length * 2) =
        .error (.badAlloc, .empty) ∧
      benchmarkBoost γ linux recorder al memory fuel keys lookup_sets iters world =
        .error .badAlloc ∨
    (∃ exit, memory.reserve lookup_sets.length = .error exit ∧
      benchmarkBoost γ linux recorder al memory fuel keys lookup_sets iters world =
        .error exit) ∨
    ∃ results std_results world' world'',
      benchmarkBoost γ linux recorder al memory fuel keys lookup_sets iters world =
        .ok (results, world') ∧
      results.map (fun result => result.sum.toNat) = lookup_sets.map (checksum linux iters) ∧
      benchmarkStdUnorderedMap linux recorder keys lookup_sets iters world =
        .ok (std_results, world'') ∧
      std_results.map (fun result => result.sum.toNat) =
        lookup_sets.map (checksum linux iters) := by
  rcases fillBoost_spec (γ := γ) al hkeys hfuel with hbad | ⟨map, hfill, hok, hc⟩
  · left
    refine ⟨hbad, ?_⟩
    rw [benchmarkBoost, fillBoost, hbad]
    rfl
  right
  cases hresults : memory.reserve lookup_sets.length with
  | error exit =>
    left
    refine ⟨exit, rfl, ?_⟩
    rw [benchmarkBoost, hfill, ok_bind, hresults]
    rfl
  | ok _ =>
    right
    obtain ⟨results, world', hrun, hsum⟩ :=
      checksums_of_answers (boostLookup_answers hok hc hfuel) hdrawn hne hi linux recorder world
    obtain ⟨std_results, world'', hstd, hstdsum⟩ :=
      checksums_of_answers (stdUnorderedMapLookup_answers keys) hdrawn hne hi linux recorder world
    refine ⟨results, std_results, world', world'', ?_, hsum, hstd, hstdsum⟩
    rw [benchmarkBoost, hfill, ok_bind, hresults, ok_bind, hrun]
    rfl

/-- Two batches of two, on both passes of a Linux run, and memory for just the
one result. -/
theorem three_keys_checksums : ∃ results std_results,
    benchmarkBoost Boost.Sse2 true ⟨fun _ world => ({}, world), fun _ world => world, id⟩
        (fun _ => .ample boostPolicy.sizeofValue) ⟨1, fun _ => true⟩ (2 ^ 64) [1, 2, 3]
        [[1, 2, 3, 1, 2]] 2 () = .ok (results, ()) ∧
      results.map (fun result => result.sum.toNat) = [14] ∧
      benchmarkStdUnorderedMap true ⟨fun _ world => ({}, world), fun _ world => world, id⟩
        [1, 2, 3] [[1, 2, 3, 1, 2]] 2 () = .ok (std_results, ()) := by
  obtain ⟨map, hmap⟩ := exists_ok (x := (Table.empty : Table Boost.Sse2 UInt64 UInt64).reserve
    boostPolicy (.ample boostPolicy.sizeofValue) (2 ^ 64) (.ofNat 3 * 2)) (by decide +kernel)
  have hkeys : ([1, 2, 3] : List UInt64).length = 3 := rfl
  rcases boost_checksums (γ := Boost.Sse2) (hkeys.trans_le (by decide)) (show 1 ≤ 2 by decide)
    le_rfl (fun _ => .ample boostPolicy.sizeofValue) ⟨1, fun _ => true⟩ true
    ⟨fun _ world => ({}, world), fun _ world => world, id⟩ ()
    (show DrawnFrom [1, 2, 3] [[1, 2, 3, 1, 2]] by simp [DrawnFrom]) (by decide) with
    ⟨hbad, -⟩ | ⟨exit, hbad, -⟩ | ⟨results, std_results, _, _, hrun, hsum, hstd, -⟩
  · rw [hkeys] at hbad
    cases hbad.symm.trans hmap
  · cases hbad
  · exact ⟨results, std_results, hrun, by rw [hsum]; decide, hstd⟩

end BenchHashmaps
