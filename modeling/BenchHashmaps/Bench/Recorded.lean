import BenchHashmaps.Bench.Counters
import BenchHashmaps.Measure.Isolation

/-!
# Benchmarks on the recorder

A batch is a run of calls through `RECORDER`, whose lookups leave the events as
they are. Its own set counts over the measured lookups, and each counter that
was read is how far the one event behind it went. The warm-up comes before the
set is enabled.
-/

namespace BenchHashmaps

open Lib (bind_ok pure_ok Run foldlM_ok)
open PerfCounters (Field get_sub)

variable {World : Type} {kernel : PerfKernel World} {recorder : X86Recorder}
  {lookup_fn : LookupFn World}

/-- Lookups that open, close and switch no events. -/
def Quiet (kernel : PerfKernel World) (lookup_fn : LookupFn World) : Prop :=
  ∀ key steps world r, lookup_fn key steps world = .ok r →
    kernel.event r.2.2 = kernel.event world ∧ kernel.misused r.2.2 = kernel.misused world

theorem Quiet.lookup (h : Quiet kernel lookup_fn) {s s' : Pass World}
    (hs : s.lookup lookup_fn key = .ok s') :
    kernel.event s'.world = kernel.event s.world ∧
      kernel.misused s'.world = kernel.misused s.world := by
  rw [Pass.lookup, bind_ok] at hs
  obtain ⟨r, hr, hs⟩ := hs
  cases hs
  exact h key s.steps s.world r hr

theorem Quiet.rounds (h : Quiet kernel lookup_fn) {s s' : Pass World}
    (hs : rounds lookups batch_size lookup_fn count offset s = .ok s') :
    kernel.event s'.world = kernel.event s.world ∧
      kernel.misused s'.world = kernel.misused s.world := by
  induction count generalizing offset s with
  | zero =>
    cases hs
    exact ⟨rfl, rfl⟩
  | succ count ih =>
    rw [BenchHashmaps.rounds, bind_ok] at hs
    obtain ⟨batch, -, hs⟩ := hs
    rw [bind_ok] at hs
    obtain ⟨mid, hbatch, hs⟩ := hs
    have hmid := (foldlM_ok.mp hbatch).invariant
      (fun now : Pass World => kernel.event now.world = kernel.event s.world ∧
        kernel.misused now.world = kernel.misused s.world)
      (fun now i next hnow hnext => by
        rw [bind_ok] at hnext
        obtain ⟨key, -, hnext⟩ := hnext
        obtain ⟨hevent, hused⟩ := h.lookup hnext
        exact ⟨hevent.trans hnow.1, hused.trans hnow.2⟩)
      ⟨rfl, rfl⟩
    obtain ⟨hevent, hused⟩ := ih hs
    exact ⟨hevent.trans hmid.1, hused.trans hmid.2⟩

def batchCalls (counter_set : PerfCounterSet) : List RecorderCall :=
  [.disable_all, .enable counter_set, .get_counters counter_set, .get_counters counter_set,
   .disable_all]

theorem Measured.run {begin : World} {s : Pass World}
    (h : Measured (recorder.toPerfRecorder kernel.toKernel) lookups batch_size iters lookup_fn
      counter_set warmup_iters now begin s)
    (hquiet : Quiet kernel lookup_fn) (hrun : RecorderRun kernel recorder mid calls now) :
    RecorderRun kernel recorder mid (calls ++ [.disable_all, .enable counter_set]) begin ∧
      kernel.event s.world = kernel.event begin ∧
      RecorderRun kernel recorder mid
        (calls ++ [.disable_all, .enable counter_set, .get_counters counter_set]) s.world := by
  obtain ⟨⟨warmup, hwarm, hbegin⟩, hloop⟩ := h
  obtain ⟨hwarmed, hused⟩ := hquiet.rounds hwarm
  have hon : RecorderRun kernel recorder mid (calls ++ [.disable_all, .enable counter_set])
      begin := by
    rw [hbegin]
    have hcalls := ((hrun.work hwarmed hused).call .disable_all).call (.enable counter_set)
    rwa [List.append_assoc] at hcalls
  obtain ⟨hevent, hused'⟩ := hquiet.rounds hloop
  have hread := hon.call (.get_counters counter_set)
  rw [List.append_assoc] at hread
  exact ⟨hon, hevent.trans (X86Recorder.getCounters_event recorder counter_set begin),
    hread.work hevent hused'⟩

theorem benchmarkBatch_run
    (h : benchmarkBatch (recorder.toPerfRecorder kernel.toKernel) lookups batch_size iters
      lookup_fn counter_set warmup_iters now = .ok (counter, sum, later))
    (hquiet : Quiet kernel lookup_fn) (hrun : RecorderRun kernel recorder mid calls now) :
    RecorderRun kernel recorder mid (calls ++ batchCalls counter_set) later := by
  obtain ⟨begin, s, hm⟩ := benchmarkBatch_measured h
  cases h.symm.trans hm.benchmarkBatch
  obtain ⟨-, -, hlast⟩ := hm.run hquiet hrun
  have hcalls := (hlast.call (.get_counters counter_set)).call .disable_all
  rwa [List.append_assoc, List.append_assoc] at hcalls

/-- A batch on a recorder that may have been used before: when its measured loop
starts, the events that count are those of its own set, and they are the same
when it ends. A field that was read at both ends is how far the one event it is
named after went in between. -/
theorem batch_counts_events (kernel : PerfKernel World) (start : World)
    (hrun : RecorderRun kernel (X86Recorder.new kernel start).1 (X86Recorder.new kernel start).2
      calls now)
    (hquiet : Quiet kernel lookup_fn)
    (h : benchmarkBatch ((X86Recorder.new kernel start).1.toPerfRecorder kernel.toKernel) lookups
      batch_size iters lookup_fn counter_set warmup_iters now = .ok (counter, sum, later)) :
    ∃ begin s, Measured ((X86Recorder.new kernel start).1.toPerfRecorder kernel.toKernel) lookups
        batch_size iters lookup_fn counter_set warmup_iters now begin s ∧
      kernel.event s.world = kernel.event begin ∧
      (∀ fd e, kernel.event start fd = none → kernel.event begin fd = some e →
        (kernel.Counting begin fd ↔ ∃ group ∈ counter_set.groups, e.attr ∈ group.attrs)) ∧
      (∀ field a b,
        (X86Recorder.new kernel start).1.reading kernel.toKernel counter_set begin field = some a →
        (X86Recorder.new kernel start).1.reading kernel.toKernel counter_set s.world field =
          some b →
        ∃ fd e, kernel.event start fd = none ∧ kernel.event begin fd = some e ∧
          e.attr = field.attr ∧ field.get counter = b - a ∧
          a = field.amount kernel
            ((X86Recorder.new kernel start).1.readIn kernel.toKernel begin field.group) fd ∧
          b = field.amount kernel
            ((X86Recorder.new kernel start).1.readIn kernel.toKernel s.world field.group) fd ∧
          ∀ fd' e', kernel.event start fd' = none → kernel.event begin fd' = some e' →
            e'.attr = field.attr → fd' = fd) ∧
      ∀ fd, kernel.event start fd = none → ¬kernel.Counting later fd := by
  obtain ⟨begin, s, hm⟩ := benchmarkBatch_measured h
  obtain ⟨hon, hevent, hlast⟩ := hm.run hquiet hrun
  have hnew := (X86Recorder.new_holds kernel start).2
  have hbegin := hon.holds hnew
  have hend := (benchmarkBatch_run h hquiet hrun).holds hnew
  have hset : enabledSet (calls ++ [.disable_all, .enable counter_set]) = some counter_set := by
    rw [enabledSet, List.foldl_append]
    rfl
  have hnone : enabledSet (calls ++ batchCalls counter_set) = none := by
    rw [enabledSet, List.foldl_append]
    rfl
  refine ⟨begin, s, hm, hevent, fun fd e hfd he => ?_, fun field a b ha hb => ?_,
    fun fd hfd hcounting => ?_⟩
  · rw [hbegin.counting_set_iff hfd he, hset]
    simp
  · obtain ⟨p, hp, hattr, ha'⟩ := X86Recorder.reading_amount hbegin ha
    obtain ⟨q, hq, hattr', hb'⟩ := X86Recorder.reading_amount (hlast.holds hnew) hb
    rw [← X86Recorder.fd_unique hp hq (hattr.trans hattr'.symm)] at hb'
    refine ⟨p.1, p.2, hbegin.owned.fresh p hp, hbegin.owned.mine p hp, hattr, ?_, ha', hb', ?_⟩
    · cases h.symm.trans hm.benchmarkBatch
      rw [get_sub]
      change field.get ((X86Recorder.new kernel start).1.getCounters _ _ _).1 -
        field.get ((X86Recorder.new kernel start).1.getCounters _ _ _).1 = _
      rw [X86Recorder.get_getCounters, X86Recorder.get_getCounters, ha, hb]
      rfl
    · intro fd' e' hfd' he' hattr''
      exact X86Recorder.fd_unique (hbegin.owned.mem_own hfd' he') hp (hattr''.trans hattr.symm)
  · have hlater := hcounting
    obtain ⟨e, -, he, -⟩ := hlater
    have hlast := (hend.counting_set_iff hfd he).mp hcounting
    rw [hnone] at hlast
    obtain ⟨_, _, hlast, -⟩ := hlast
    cases hlast

def tickLookup : LookupFn PerfState := fun key steps state => .ok (key, steps, state.tick)

theorem tickLookup_quiet : Quiet PerfState.kernel tickLookup := by
  rintro key steps state r ⟨⟩
  exact ⟨rfl, rfl⟩

theorem batch_counts_events_fiveOpens :
    ∃ counter sum later begin s,
      Measured (fiveOpens.1.toPerfRecorder PerfState.kernel.toKernel) [7, 8, 9] 1 3 tickLookup
        .core 1 oneTick begin s ∧
      benchmarkBatch (fiveOpens.1.toPerfRecorder PerfState.kernel.toKernel) [7, 8, 9] 1 3
        tickLookup .core 1 oneTick = .ok (counter, sum, later) ∧
      PerfState.kernel.Counting begin 0 ∧ counter.cycles = 3 ∧
      ∀ fd, ¬PerfState.kernel.Counting later fd := by
  obtain ⟨⟨counter, sum, later⟩, h⟩ : ∃ r, benchmarkBatch
    (fiveOpens.1.toPerfRecorder PerfState.kernel.toKernel) [7, 8, 9] 1 3 tickLookup .core 1
      oneTick = .ok r := ⟨_, rfl⟩
  obtain ⟨begin, s, hm, -, hcounting, hfield, hlater⟩ :=
    batch_counts_events PerfState.kernel (PerfState.initial 5) fiveOpens_run tickLookup_quiet h
  have hcycles : counter.cycles = 3 := by
    cases h
    rfl
  refine ⟨counter, sum, later, begin, s, hm, h, ?_, hcycles, fun fd => hlater fd rfl⟩
  obtain ⟨⟨warmup, hwarm, hbegin⟩, -⟩ := hm
  cases hwarm
  subst hbegin
  exact (hcounting 0 _ rfl rfl).mpr ⟨.core, by decide, by decide⟩

end BenchHashmaps
