import BenchHashmaps.Bench
import BenchHashmaps.Lib.Runs

/-!
# What one pass looks up

The nested loops with their running offset call the lookup function on a
prefix of the span, in order (`rounds_eq`). When every call answers, a pass
returns and its sum is that of the answers.
-/

namespace BenchHashmaps

open Lib (bind_ok bind_error ok_bind foldlM_error)

variable {World : Type} {lookups : List UInt64} {lookup_fn : LookupFn World} {f : UInt64 → UInt64}

-- ---------------------------------------------------------------------------
-- The loops
-- ---------------------------------------------------------------------------

theorem batch_eq (h : batch + batch_size ≤ lookups.length) (s : Pass World) :
    (List.range batch_size).foldlM (fun s i => do
      let key ← readAt lookups batch i
      s.lookup lookup_fn key) s =
    ((lookups.drop batch).take batch_size).foldlM (Pass.lookup lookup_fn) s := by
  induction batch_size with
  | zero => rfl
  | succ n ih =>
    have hlt : batch + n < lookups.length := by omega
    have hread : readAt lookups batch n = .ok lookups[batch + n] := by
      rw [readAt, List.getElem?_eq_getElem hlt]
    rw [List.range_succ, List.foldlM_append, ih (by omega), List.take_add_one,
      List.getElem?_drop, List.getElem?_eq_getElem hlt, List.foldlM_append]
    refine bind_congr fun s => ?_
    rw [List.foldlM_cons, hread]
    rfl

/-- Batches of no lookups stay where they start, so the span has to have an
element there. -/
theorem rounds_eq (h : offset + count * batch_size ≤ lookups.length)
    (hlt : count ≠ 0 → offset < lookups.length) (s : Pass World) :
    rounds lookups batch_size lookup_fn count offset s =
      ((lookups.drop offset).take (count * batch_size)).foldlM (Pass.lookup lookup_fn) s := by
  induction count generalizing offset s with
  | zero => rw [Nat.zero_mul]; rfl
  | succ n ih =>
    have hlt := hlt (Nat.succ_ne_zero n)
    rw [Nat.succ_mul, Nat.add_comm (n * batch_size)] at h ⊢
    have haddr : addressOf lookups offset = .ok offset := if_pos hlt
    have hnext : n ≠ 0 → offset + batch_size < lookups.length := by
      intro hn
      rcases Nat.eq_zero_or_pos batch_size with rfl | hpos
      · exact hlt
      · have := Nat.mul_pos (Nat.pos_of_ne_zero hn) hpos
        omega
    rw [rounds, haddr, ok_bind, batch_eq (by omega), List.take_add, List.foldlM_append,
      List.drop_drop]
    exact bind_congr fun s => ih (by omega) hnext s

theorem rounds_start (hr : rounds lookups batch_size lookup_fn count offset s = .ok s')
    (hn : count ≠ 0) : offset < lookups.length := by
  obtain ⟨n, rfl⟩ := Nat.exists_eq_succ_of_ne_zero hn
  rw [rounds, bind_ok] at hr
  obtain ⟨batch, haddr, -⟩ := hr
  by_contra hle
  rw [addressOf, if_neg hle] at haddr
  cases haddr

-- ---------------------------------------------------------------------------
-- One batch
-- ---------------------------------------------------------------------------

theorem warmup_le {warmup_iters iters batch_size n : Nat} (h : iters * batch_size ≤ n) :
    min warmup_iters iters * batch_size ≤ n :=
  (Nat.mul_le_mul_right _ (Nat.min_le_right _ _)).trans h

/-- A call of `benchmark_batch` reads the counters in the world `start`, and
again in the one its measured loop, ending as `s`, leaves behind. -/
structure Measured (recorder : PerfRecorder World) (lookups : List UInt64)
    (batch_size iters : Nat) (lookup_fn : LookupFn World) (counter_set : PerfCounterSet)
    (warmup_iters : Nat) (world start : World) (s : Pass World) : Prop where
  warmup : ∃ warmup, rounds lookups batch_size lookup_fn (min warmup_iters iters) 0
      { sum := 0, steps := 0, world } = .ok warmup ∧
    start = recorder.enable counter_set (recorder.disable_all warmup.world)
  loop : rounds lookups batch_size lookup_fn iters 0
    { sum := 0, steps := 0, world := (recorder.get_counters counter_set start).2 } = .ok s

theorem Measured.benchmarkBatch {recorder : PerfRecorder World}
    (h : Measured recorder lookups batch_size iters lookup_fn counter_set warmup_iters world
      start s) :
    benchmarkBatch recorder lookups batch_size iters lookup_fn counter_set warmup_iters world =
      .ok ((recorder.get_counters counter_set s.world).1 -
          (recorder.get_counters counter_set start).1, s.sum,
        recorder.disable_all (recorder.get_counters counter_set s.world).2) := by
  obtain ⟨⟨warmup, hwarm, rfl⟩, hloop⟩ := h
  simp only [BenchHashmaps.benchmarkBatch, hwarm, ok_bind, hloop]
  rfl

theorem benchmarkBatch_measured {recorder : PerfRecorder World}
    (h : benchmarkBatch recorder lookups batch_size iters lookup_fn counter_set warmup_iters
      world = .ok r) :
    ∃ start s, Measured recorder lookups batch_size iters lookup_fn counter_set warmup_iters
      world start s := by
  rw [benchmarkBatch, bind_ok] at h
  obtain ⟨warmup, hwarm, h⟩ := h
  rw [bind_ok] at h
  obtain ⟨s, hloop, -⟩ := h
  exact ⟨_, s, ⟨warmup, hwarm, rfl⟩, hloop⟩

-- ---------------------------------------------------------------------------
-- Faults
-- ---------------------------------------------------------------------------

def FailsOn (lookup_fn : LookupFn World) (lookups : List UInt64) (fault : Fault) : Prop :=
  ∃ key ∈ lookups, ∃ steps world, lookup_fn key steps world = .error fault

/-- The loops read no key outside the span: but for an empty span, what fails is
a lookup of a key in it. -/
theorem rounds_error (h : count * batch_size ≤ lookups.length)
    (he : rounds lookups batch_size lookup_fn count 0 s = .error fault) :
    lookups = [] ∧ fault = .outOfBounds ∨ FailsOn lookup_fn lookups fault := by
  cases lookups with
  | nil =>
    left
    cases count with
    | zero => cases he
    | succ n =>
      cases he
      exact ⟨rfl, rfl⟩
  | cons first rest =>
    right
    rw [rounds_eq (by omega) (fun _ => Nat.succ_pos _), List.drop_zero] at he
    obtain ⟨key, hkey, s, he⟩ := foldlM_error he
    rw [Pass.lookup, bind_error] at he
    obtain he | ⟨r, -, he⟩ := he
    · exact ⟨key, List.mem_of_mem_take hkey, s.steps, s.world, he⟩
    · cases he

theorem benchmarkBatch_error {recorder : PerfRecorder World}
    (h : iters * batch_size ≤ lookups.length)
    (he : benchmarkBatch recorder lookups batch_size iters lookup_fn counter_set warmup_iters
      world = .error fault) :
    lookups = [] ∧ fault = .outOfBounds ∨ FailsOn lookup_fn lookups fault := by
  rw [benchmarkBatch, bind_error] at he
  obtain he | ⟨warmup, -, he⟩ := he
  · exact rounds_error (warmup_le h) he
  rw [bind_error] at he
  obtain he | ⟨s, -, he⟩ := he
  · exact rounds_error h he
  · cases he

theorem benchmarkSplit_error {recorder : PerfRecorder World} (hi : 1 ≤ iters)
    (he : benchmarkSplit linux recorder lookups iters lookup_fn world = .error fault) :
    lookups = [] ∧ fault = .outOfBounds ∨ FailsOn lookup_fn lookups fault := by
  have h : iters * (lookups.length / iters) ≤ lookups.length := Nat.mul_div_le _ _
  have hne : iters ≠ 0 := by omega
  simp only [benchmarkSplit, hne, if_false, bind_error] at he
  obtain he | ⟨_, -, he⟩ := he
  · exact benchmarkBatch_error h he
  cases linux with
  | false => cases he
  | true =>
    rw [if_pos rfl, bind_error] at he
    obtain he | ⟨_, -, he⟩ := he
    · exact benchmarkBatch_error h he
    · cases he

-- ---------------------------------------------------------------------------
-- Answers
-- ---------------------------------------------------------------------------

def Answers (lookup_fn : LookupFn World) (f : UInt64 → UInt64) (keys : List UInt64) : Prop :=
  ∀ key ∈ keys, ∀ steps world, ∃ steps' world',
    lookup_fn key steps world = .ok (f key, steps', world')

def identityLookup : LookupFn World := fun key steps world => .ok (key, steps, world)

theorem Answers.subset (h : Answers lookup_fn f keys) (hs : ∀ key ∈ keys', key ∈ keys) :
    Answers lookup_fn f keys' :=
  fun key hk => h key (hs key hk)

theorem Answers.pass (h : Answers lookup_fn f keys) (s : Pass World) :
    ∃ s', keys.foldlM (Pass.lookup lookup_fn) s = .ok s' ∧ s'.sum = s.sum + (keys.map f).sum := by
  induction keys generalizing s with
  | nil => exact ⟨s, rfl, (UInt64.add_zero _).symm⟩
  | cons key keys ih =>
    obtain ⟨steps, world, hkey⟩ := h key (by simp) s.steps s.world
    obtain ⟨s', hs', hsum⟩ := ih (h.subset (by simp +contextual))
      { sum := s.sum + f key, steps, world }
    refine ⟨s', ?_, ?_⟩
    · rw [List.foldlM_cons, bind_ok]
      exact ⟨_, by rw [Pass.lookup, hkey]; rfl, hs'⟩
    · rw [hsum, List.map_cons, List.sum_cons, UInt64.add_assoc]

theorem Answers.rounds (h : Answers lookup_fn f lookups) (hne : lookups ≠ [])
    (hle : count * batch_size ≤ lookups.length) (s : Pass World) :
    ∃ s', rounds lookups batch_size lookup_fn count 0 s = .ok s' ∧
      s'.sum = s.sum + ((lookups.take (count * batch_size)).map f).sum := by
  rw [rounds_eq (by omega) (fun _ => List.length_pos_iff.mpr hne), List.drop_zero]
  exact (h.subset fun key hk => List.mem_of_mem_take hk).pass s

theorem Answers.benchmarkBatch (h : Answers lookup_fn f lookups) (hne : lookups ≠ [])
    (hle : iters * batch_size ≤ lookups.length) (recorder : PerfRecorder World)
    (counter_set : PerfCounterSet) (warmup_iters : Nat) (world : World) :
    ∃ counter world', benchmarkBatch recorder lookups batch_size iters lookup_fn counter_set
      warmup_iters world =
        .ok (counter, ((lookups.take (iters * batch_size)).map f).sum, world') := by
  obtain ⟨warmup, hw, -⟩ := h.rounds hne (warmup_le hle) { sum := 0, steps := 0, world }
  obtain ⟨s, hs, hsum⟩ := h.rounds hne hle { sum := 0, steps := 0, world := (recorder.get_counters
    counter_set (recorder.enable counter_set (recorder.disable_all warmup.world))).2 }
  rw [UInt64.zero_add] at hsum
  rw [← hsum]
  exact ⟨_, _, Measured.benchmarkBatch ⟨⟨warmup, hw, rfl⟩, hs⟩⟩

-- ---------------------------------------------------------------------------
-- Whole benchmarks
-- ---------------------------------------------------------------------------

def passSum (f : UInt64 → UInt64) (iters : Nat) (lookups : List UInt64) : UInt64 :=
  ((lookups.take (iters * (lookups.length / iters))).map f).sum

theorem Answers.benchmarkSplit (h : Answers lookup_fn f lookups) (hne : lookups ≠ [])
    (hi : 1 ≤ iters) (linux : Bool) (recorder : PerfRecorder World) (world : World) :
    ∃ result world', benchmarkSplit linux recorder lookups iters lookup_fn world =
      .ok (result, world') ∧
        result.sum = passSum f iters lookups + if linux then passSum f iters lookups else 0 := by
  have hle : iters * (lookups.length / iters) ≤ lookups.length := Nat.mul_div_le _ _
  obtain ⟨counter, world1, hcore⟩ := h.benchmarkBatch hne hle recorder .core 1 world
  have hzero : iters ≠ 0 := by omega
  cases linux with
  | false =>
    simp only [BenchHashmaps.benchmarkSplit, hzero, hcore, ok_bind, if_false]
    exact ⟨_, _, rfl, (UInt64.add_zero _).symm⟩
  | true =>
    obtain ⟨cache_counter, world2, hcache⟩ := h.benchmarkBatch hne hle recorder .cache 1 world1
    simp only [BenchHashmaps.benchmarkSplit, hzero, hcore, hcache, ok_bind, if_false, if_true]
    exact ⟨_, _, rfl, rfl⟩

theorem Answers.benchmarkSets (h : ∀ lookups ∈ lookup_sets, Answers lookup_fn f lookups)
    (hne : [] ∉ lookup_sets) (hi : 1 ≤ iters) (linux : Bool) (recorder : PerfRecorder World)
    (results : List BenchResult) (world : World) :
    ∃ results' world', benchmarkSets linux recorder iters lookup_fn lookup_sets results world =
      .ok (results', world') ∧ results'.map BenchResult.sum = results.map BenchResult.sum ++
        lookup_sets.map fun lookups =>
          passSum f iters lookups + if linux then passSum f iters lookups else 0 := by
  induction lookup_sets generalizing results world with
  | nil => exact ⟨results, world, rfl, (List.append_nil _).symm⟩
  | cons lookups lookup_sets ih =>
    rw [List.mem_cons, not_or] at hne
    obtain ⟨result, mid, hsplit, hresult⟩ :=
      (h lookups (by simp)).benchmarkSplit (Ne.symm hne.1) hi linux recorder world
    obtain ⟨results', world', hsets, hsum⟩ :=
      ih (fun lookups hl => h lookups (by simp [hl])) hne.2 (results ++ [result]) mid
    refine ⟨results', world', ?_, ?_⟩
    · rw [BenchHashmaps.benchmarkSets, hsplit, ok_bind]
      exact hsets
    · rw [hsum, List.map_append, List.map_singleton, hresult, List.append_assoc]
      rfl

end BenchHashmaps
