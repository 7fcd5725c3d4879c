import BenchHashmaps.Bench.PassLaws

/-!
# What a benchmark does, call by call

Any recorder and lookup function can be made to log their calls in the world
they act on. The log changes no result, so what it says about the instrumented
benchmark holds of the plain one: here, which lookups lie between the two
readings of a pass, and that `BenchResult.lookups` is their number only when
the batches divide the span.
-/

namespace BenchHashmaps

open Lib (bind_ok ok_bind pure_ok)

variable {World : Type} {recorder : PerfRecorder World} {lookup_fn : LookupFn World}
  {lookups : List UInt64}

inductive Event
  | lookup (key : UInt64)
  | enable (counter_set : PerfCounterSet)
  | disable_all
  | get_counters (counter_set : PerfCounterSet)
  deriving DecidableEq, Repr

-- ---------------------------------------------------------------------------
-- Logging
-- ---------------------------------------------------------------------------

/-- `lookup_fn`, with every call that returns logged. -/
def LookupFn.traced (lookup_fn : LookupFn World) : LookupFn (World × List Event) :=
  fun key steps (world, log) => do
    let (value, steps, world) ← lookup_fn key steps world
    pure (value, steps, world, log ++ [.lookup key])

def PerfRecorder.traced (recorder : PerfRecorder World) : PerfRecorder (World × List Event) where
  get_counters counter_set := fun (world, log) =>
    let (counters, world) := recorder.get_counters counter_set world
    (counters, world, log ++ [.get_counters counter_set])
  enable counter_set := fun (world, log) =>
    (recorder.enable counter_set world, log ++ [.enable counter_set])
  disable_all := fun (world, log) => (recorder.disable_all world, log ++ [.disable_all])

def Pass.traced (s : Pass World) (log : List Event) : Pass (World × List Event) :=
  { sum := s.sum, steps := s.steps, world := (s.world, log) }

theorem Pass.lookup_traced (s : Pass World) (log : List Event) (key : UInt64) :
    (s.traced log).lookup lookup_fn.traced key =
      (s.lookup lookup_fn key).map (·.traced (log ++ [.lookup key])) := by
  simp only [Pass.lookup, LookupFn.traced, Pass.traced]
  cases lookup_fn key s.steps s.world <;> rfl

theorem pass_traced (keys : List UInt64) (s : Pass World) (log : List Event) :
    keys.foldlM (Pass.lookup lookup_fn.traced) (s.traced log) =
      (keys.foldlM (Pass.lookup lookup_fn) s).map (·.traced (log ++ keys.map .lookup)) := by
  induction keys generalizing s log with
  | nil =>
    rw [List.map_nil, List.append_nil]
    rfl
  | cons key keys ih =>
    rw [List.foldlM_cons, List.foldlM_cons, Pass.lookup_traced]
    cases s.lookup lookup_fn key with
    | error fault => rfl
    | ok s' =>
      have hlog : log ++ Event.lookup key :: keys.map .lookup =
          log ++ [.lookup key] ++ keys.map .lookup := List.append_cons _ _ _
      rw [List.map_cons, hlog]
      exact ih s' (log ++ [.lookup key])

theorem rounds_traced (h : count * batch_size ≤ lookups.length)
    (hr : rounds lookups batch_size lookup_fn count 0 s = .ok s') (log : List Event) :
    rounds lookups batch_size lookup_fn.traced count 0 (s.traced log) =
      .ok (s'.traced (log ++ (lookups.take (count * batch_size)).map .lookup)) := by
  have hlt := rounds_start hr
  rw [rounds_eq (by omega) hlt, List.drop_zero] at hr ⊢
  rw [pass_traced, hr]
  rfl

-- ---------------------------------------------------------------------------
-- The calls of a batch
-- ---------------------------------------------------------------------------

def batchEvents (lookups : List UInt64) (batch_size iters : Nat) (counter_set : PerfCounterSet)
    (warmup_iters : Nat) : List Event :=
  (lookups.take (min warmup_iters iters * batch_size)).map .lookup ++
    [.disable_all, .enable counter_set, .get_counters counter_set] ++
    (lookups.take (iters * batch_size)).map .lookup ++
    [.get_counters counter_set, .disable_all]

theorem Measured.traced (hle : iters * batch_size ≤ lookups.length)
    (h : Measured recorder lookups batch_size iters lookup_fn counter_set warmup_iters world
      start s) (log : List Event) :
    Measured recorder.traced lookups batch_size iters lookup_fn.traced counter_set warmup_iters
      (world, log)
      (start, log ++ (lookups.take (min warmup_iters iters * batch_size)).map .lookup ++
        [.disable_all] ++ [.enable counter_set])
      (s.traced (log ++ (lookups.take (min warmup_iters iters * batch_size)).map .lookup ++
        [.disable_all] ++ [.enable counter_set] ++ [.get_counters counter_set] ++
        (lookups.take (iters * batch_size)).map .lookup)) := by
  obtain ⟨⟨warmup, hw, rfl⟩, hloop⟩ := h
  exact ⟨⟨_, rounds_traced (warmup_le hle) hw log, rfl⟩, rounds_traced hle hloop _⟩

/-- Logging changes no result, and the log of a batch is fixed by its
arguments. -/
theorem benchmarkBatch_traced (hle : iters * batch_size ≤ lookups.length)
    (h : benchmarkBatch recorder lookups batch_size iters lookup_fn counter_set warmup_iters
      world = .ok (counter, sum, world')) (log : List Event) :
    benchmarkBatch recorder.traced lookups batch_size iters lookup_fn.traced counter_set
      warmup_iters (world, log) =
        .ok (counter, sum, world', log ++
          batchEvents lookups batch_size iters counter_set warmup_iters) := by
  obtain ⟨start, s, hm⟩ := benchmarkBatch_measured h
  cases h.symm.trans hm.benchmarkBatch
  rw [(hm.traced hle log).benchmarkBatch]
  simp [batchEvents, PerfRecorder.traced, Pass.traced]

def splitEvents (linux : Bool) (lookups : List UInt64) (iters : Nat) : List Event :=
  batchEvents lookups (lookups.length / iters) iters .core 1 ++
    if linux then batchEvents lookups (lookups.length / iters) iters .cache 1 else []

theorem benchmarkSplit_traced
    (h : benchmarkSplit linux recorder lookups iters lookup_fn world = .ok (result, world'))
    (log : List Event) :
    benchmarkSplit linux recorder.traced lookups iters lookup_fn.traced (world, log) =
      .ok (result, world', log ++ splitEvents linux lookups iters) := by
  have hle : iters * (lookups.length / iters) ≤ lookups.length := Nat.mul_div_le _ _
  by_cases hi : iters = 0
  · simp only [benchmarkSplit, hi, if_true] at h
    cases h
  simp only [benchmarkSplit, hi, if_false, bind_ok] at h ⊢
  obtain ⟨⟨counter, sum, mid⟩, hcore, h⟩ := h
  refine ⟨_, benchmarkBatch_traced hle hcore log, ?_⟩
  cases linux with
  | false =>
    cases pure_ok.mp h
    rw [show splitEvents false lookups iters = _ from List.append_nil _]
    rfl
  | true =>
    rw [if_pos rfl, bind_ok] at h ⊢
    obtain ⟨⟨cache_counter, cache_sum, _⟩, hcache, h⟩ := h
    cases pure_ok.mp h
    refine ⟨_, benchmarkBatch_traced hle hcache _, ?_⟩
    rw [splitEvents, if_pos rfl, ← List.append_assoc]
    rfl

-- ---------------------------------------------------------------------------
-- The measured calls
-- ---------------------------------------------------------------------------

def Event.key? : Event → Option UInt64
  | .lookup key => some key
  | _ => none

/-- The keys looked up between the first two readings of `counter_set`. -/
def measuredCalls (counter_set : PerfCounterSet) (log : List Event) : List UInt64 :=
  ((log.dropWhile (· ≠ .get_counters counter_set)).tail.takeWhile
    (· ≠ .get_counters counter_set)).filterMap Event.key?

theorem measuredCalls_batchEvents (counter_set : PerfCounterSet) (log : List Event) :
    measuredCalls counter_set
        (batchEvents lookups batch_size iters counter_set warmup_iters ++ log) =
      lookups.take (iters * batch_size) := by
  have hlookups : ∀ keys : List UInt64, ∀ e ∈ keys.map Event.lookup,
      decide (e ≠ .get_counters counter_set) = true := by
    intro keys e he
    obtain ⟨key, -, rfl⟩ := List.mem_map.mp he
    rfl
  have hkeys : ∀ keys : List UInt64, (keys.map Event.lookup).filterMap Event.key? = keys := by
    intro keys
    rw [List.filterMap_map]
    exact List.filterMap_some
  simp only [measuredCalls, batchEvents, List.append_assoc, List.cons_append, List.nil_append]
  -- the warm-up and the set-up lie before the first reading
  rw [List.dropWhile_append_of_pos (hlookups _), List.dropWhile_cons_of_pos rfl,
    List.dropWhile_cons_of_pos rfl, List.dropWhile_cons_of_neg (by simp), List.tail_cons,
    List.takeWhile_append_of_pos (hlookups _), List.takeWhile_cons_of_neg (by simp),
    List.append_nil, hkeys]

/-- The core pass looks up the span once, in order, and `lookups` is the number
of these calls. -/
structure CountsSpan (lookups : List UInt64) (result : BenchResult) (log : List Event) : Prop where
  span : measuredCalls .core log = lookups
  counted : result.lookups.toNat = (measuredCalls .core log).length

theorem benchmarkSplit_lookups {recorder : PerfRecorder World}
    (h : benchmarkSplit linux recorder lookups iters lookup_fn world = .ok (result, world')) :
    result.lookups = .ofNat lookups.length := by
  by_cases hi : iters = 0
  · simp only [benchmarkSplit, hi, if_true] at h
    cases h
  simp only [benchmarkSplit, hi, if_false, bind_ok] at h
  obtain ⟨_, -, h⟩ := h
  cases linux with
  | false =>
    cases pure_ok.mp h
    rfl
  | true =>
    rw [if_pos rfl, bind_ok] at h
    obtain ⟨_, -, h⟩ := h
    cases pure_ok.mp h
    rfl

/-- The batches have equal sizes, so they leave out the rest of the division,
which `lookups` counts all the same. -/
theorem countsSpan_iff (hl : lookups.length < 2 ^ 64)
    (hlookups : result.lookups = .ofNat lookups.length)
    (hlog : measuredCalls .core log = lookups.take (iters * (lookups.length / iters))) :
    CountsSpan lookups result log ↔ iters ∣ lookups.length := by
  have hle : iters * (lookups.length / iters) ≤ lookups.length := Nat.mul_div_le _ _
  constructor
  · intro hspan
    have htake : lookups.take (iters * (lookups.length / iters)) = lookups :=
      hlog.symm.trans hspan.span
    have hge := List.take_eq_self_iff lookups |>.mp htake
    exact ⟨_, Nat.le_antisymm hge hle⟩
  · intro hdvd
    have hspan : measuredCalls .core log = lookups := by
      rw [hlog, Nat.mul_div_cancel' hdvd, List.take_length]
    refine ⟨hspan, ?_⟩
    rw [hspan, hlookups, UInt64.toNat_ofNat_of_lt' hl]

/-- The batches cover the span, and the measured calls are `lookups` many,
precisely when `iters` divides its length. No key outside the span is read; a
run fails where a lookup fails, or on an empty span. -/
theorem core_lookups_iff (hi : 1 ≤ iters) (hl : lookups.length < 2 ^ 64) (linux : Bool)
    (recorder : PerfRecorder World) (lookup_fn : LookupFn World) (world : World) :
    (∀ fault, benchmarkSplit linux recorder lookups iters lookup_fn world = .error fault →
      lookups = [] ∧ fault = .outOfBounds ∨ FailsOn lookup_fn lookups fault) ∧
    ∀ result world', benchmarkSplit linux recorder lookups iters lookup_fn world =
        .ok (result, world') →
      ∃ log, benchmarkSplit linux recorder.traced lookups iters lookup_fn.traced (world, []) =
          .ok (result, world', log) ∧
        (CountsSpan lookups result log ↔ iters ∣ lookups.length) := by
  refine ⟨fun fault he => benchmarkSplit_error hi he, fun result world' h => ?_⟩
  refine ⟨_, benchmarkSplit_traced h [], countsSpan_iff hl (benchmarkSplit_lookups h) ?_⟩
  exact measuredCalls_batchEvents .core _

def silentRecorder : PerfRecorder Unit where
  get_counters _ world := ({}, world)
  enable _ world := world
  disable_all world := world

theorem four_lookups_counted : ∃ result log,
    benchmarkSplit true silentRecorder.traced [1, 2, 3, 4] 2 identityLookup.traced ((), []) =
      .ok (result, (), log) ∧ CountsSpan [1, 2, 3, 4] result log := by
  have hrun : benchmarkSplit true silentRecorder [1, 2, 3, 4] 2 identityLookup () =
      .ok ({ counter := {}, sum := 20, lookups := 4 }, ()) := by rfl
  have hi : 1 ≤ 2 := by decide
  have hl : ([1, 2, 3, 4] : List UInt64).length < 2 ^ 64 := by decide
  obtain ⟨-, hok⟩ := core_lookups_iff hi hl true silentRecorder identityLookup ()
  obtain ⟨log, hlog, hiff⟩ := hok _ _ hrun
  exact ⟨_, log, hlog, hiff.mpr (by decide)⟩

theorem three_lookups_miscounted : ∃ result log,
    benchmarkSplit true silentRecorder.traced [1, 2, 3] 2 identityLookup.traced ((), []) =
      .ok (result, (), log) ∧
    measuredCalls .core log = [1, 2] ∧ result.lookups = 3 ∧ ¬ CountsSpan [1, 2, 3] result log :=
  ⟨_, _, rfl, rfl, rfl, fun h => absurd h.span (by decide)⟩

end BenchHashmaps
