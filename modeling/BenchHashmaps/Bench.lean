import BenchHashmaps.Measure
import BenchHashmaps.TwoWay

/-!
# The benchmark

`bench.hpp` and the key and lookup lists of `main.cpp`. A lookup function gets
a key and the step count, and may act on the world; the loops around it are
the same for every map. `benchmark_twoway` and `benchmark_std_unordered_map`
differ in the map they fill and look up.
-/

namespace BenchHashmaps

variable {World : Type}

structure BenchResult where
  counter : PerfCounters
  sum : UInt64
  lookups : UInt64
  deriving DecidableEq, Repr

abbrev LookupFn (World : Type) :=
  UInt64 → UInt64 → World → Except Fault (UInt64 × UInt64 × World)

structure Pass (World : Type) where
  sum : UInt64
  steps : UInt64
  world : World

-- ---------------------------------------------------------------------------
-- One pass
-- ---------------------------------------------------------------------------

/-- `sum += lookup_fn(key, &steps);` -/
def Pass.lookup (lookup_fn : LookupFn World) (s : Pass World) (key : UInt64) :
    Except Fault (Pass World) := do
  let (value, steps, world) ← lookup_fn key s.steps s.world
  pure { sum := s.sum + value, steps, world }

/-- `&lookups[offset]`: `operator[]` of a span wants an element there, although
only its address is taken. -/
def addressOf (lookups : List UInt64) (offset : Nat) : Except Fault Nat :=
  if offset < lookups.length then .ok offset else .error .outOfBounds

/-- `batch[i]`. -/
def readAt (lookups : List UInt64) (batch i : Nat) : Except Fault UInt64 :=
  match lookups[batch + i]? with
  | some key => .ok key
  | none => .error .outOfBounds

/-- The remaining `count` rounds of the outer loop, from `offset` on. The
warm-up and the measured loop are this loop on their own variables. -/
def rounds (lookups : List UInt64) (batch_size : Nat) (lookup_fn : LookupFn World) :
    Nat → Nat → Pass World → Except Fault (Pass World)
  | 0, _, s => .ok s
  | count + 1, offset, s => do
    let batch ← addressOf lookups offset
    let s ← (List.range batch_size).foldlM (fun s i => do
      let key ← readAt lookups batch i
      s.lookup lookup_fn key) s
    rounds lookups batch_size lookup_fn count (offset + batch_size) s

def benchmarkBatch (recorder : PerfRecorder World) (lookups : List UInt64)
    (batch_size iters : Nat) (lookup_fn : LookupFn World) (counter_set : PerfCounterSet)
    (warmup_iters : Nat) (world : World) : Except Fault (PerfCounters × UInt64 × World) := do
  -- the warm-up sum is volatile and never read
  let warmup ← rounds lookups batch_size lookup_fn (min warmup_iters iters) 0
    { sum := 0, steps := 0, world }
  let world := recorder.enable counter_set (recorder.disable_all warmup.world)
  let (start, world) := recorder.get_counters counter_set world
  let s ← rounds lookups batch_size lookup_fn iters 0 { sum := 0, steps := 0, world }
  let (stop, world) := recorder.get_counters counter_set s.world
  pure (stop - start, s.sum, recorder.disable_all world)

/-- Only on Linux there is a second pass, for the cache counters. -/
def benchmarkSplit (linux : Bool) (recorder : PerfRecorder World) (lookups : List UInt64)
    (iters : Nat) (lookup_fn : LookupFn World) (world : World) :
    Except Fault (BenchResult × World) := do
  if iters = 0 then throw .divideByZero
  let batch_size := lookups.length / iters
  let (counter, sum, world) ←
    benchmarkBatch recorder lookups batch_size iters lookup_fn .core 1 world
  if linux then
    let (cache_counter, cache_sum, world) ←
      benchmarkBatch recorder lookups batch_size iters lookup_fn .cache 1 world
    let counter :=
      { counter with
        l1d_accesses := cache_counter.l1d_accesses
        l1d_misses := cache_counter.l1d_misses
        l1d_time_enabled := cache_counter.l1d_time_enabled
        l1d_time_running := cache_counter.l1d_time_running
        llc_accesses := cache_counter.llc_accesses
        llc_misses := cache_counter.llc_misses
        llc_time_enabled := cache_counter.llc_time_enabled
        llc_time_running := cache_counter.llc_time_running }
    pure ({ counter, sum := sum + cache_sum, lookups := .ofNat lookups.length }, world)
  else pure ({ counter, sum, lookups := .ofNat lookups.length }, world)

/-- The loop over the lookup sets that every benchmark ends with;
`results.emplace_back` on each. -/
def benchmarkSets (linux : Bool) (recorder : PerfRecorder World) (iters : Nat)
    (lookup_fn : LookupFn World) :
    List (List UInt64) → List BenchResult → World → Except Fault (List BenchResult × World)
  | [], results, world => pure (results, world)
  | lookups :: lookup_sets, results, world => do
    let (result, world) ← benchmarkSplit linux recorder lookups iters lookup_fn world
    benchmarkSets linux recorder iters lookup_fn lookup_sets (results ++ [result]) world

-- ---------------------------------------------------------------------------
-- The maps
-- ---------------------------------------------------------------------------

def fillTwoway (p : Target UInt64 UInt64 4) (fuel : Nat) (keys : List UInt64) :
    Except Fault (TwoWay UInt64 UInt64 4) := do
  let twoway ← TwoWay.new p
  keys.foldlM (fun twoway key => twoway.insert p fuel key key) twoway

def twowayLookup (p : Target UInt64 UInt64 4) (twoway : TwoWay UInt64 UInt64 4) :
    LookupFn World := fun key steps world => do
  let (value, steps) ← twoway.find p key steps
  pure (value, steps, world)

def benchmarkTwoway (linux : Bool) (recorder : PerfRecorder World)
    (heap : Heap (Slot UInt64 UInt64 4)) (h : 2 * 4 ≤ heap.sizeof.toNat) (fuel : Nat)
    (keys : List UInt64) (lookup_sets : List (List UInt64)) (iters : Nat) (world : World) :
    Except Fault (List BenchResult × World) := do
  let p := U64ToU64TableTrait.target heap h
  let twoway ← fillTwoway p fuel keys
  benchmarkSets linux recorder iters (twowayLookup p twoway) lookup_sets [] world

def fillStdUnorderedMap (keys : List UInt64) : Std.HashMap UInt64 UInt64 :=
  keys.foldl (fun map key => map.insertIfNew key key) ∅

/-- `it->second` of an absent key dereferences `end()`; steps stay as they are. -/
def stdUnorderedMapLookup (map : Std.HashMap UInt64 UInt64) : LookupFn World :=
  fun key steps world =>
    match map[key]? with
    | some value => .ok (value, steps, world)
    | none => .error .outOfBounds

def benchmarkStdUnorderedMap (linux : Bool) (recorder : PerfRecorder World)
    (keys : List UInt64) (lookup_sets : List (List UInt64)) (iters : Nat) (world : World) :
    Except Fault (List BenchResult × World) :=
  let map := fillStdUnorderedMap keys
  benchmarkSets linux recorder iters (stdUnorderedMapLookup map) lookup_sets [] world

-- ---------------------------------------------------------------------------
-- The inputs
-- ---------------------------------------------------------------------------

def ITERS : Nat := 100000

def BATCH_SIZE : List Nat := [1, 2, 4, 8, 16, 32, 64, 128]

def makeKeys (num_keys : Nat) : List UInt64 :=
  (List.range num_keys).map fun i => .ofNat (i + 1)

/-- `draws batch_size i` is the `i`-th draw from `{0, .., keys.size() - 1}`
for that batch size. -/
def makeRandomLookupSets (keys : List UInt64) (draws : Nat → Nat → Nat) :
    Except Fault (List (List UInt64)) :=
  BATCH_SIZE.mapM fun batch_size =>
    (List.range (ITERS * batch_size)).mapM fun i => readAt keys 0 (draws batch_size i)

def makeDenseLookupSets (keys : List UInt64) : Except Fault (List (List UInt64)) :=
  BATCH_SIZE.mapM fun batch_size =>
    (List.range (ITERS * batch_size)).mapM fun i =>
      if keys.length = 0 then .error .divideByZero else readAt keys 0 (i % keys.length)

end BenchHashmaps
