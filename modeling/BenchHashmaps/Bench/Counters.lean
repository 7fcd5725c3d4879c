import BenchHashmaps.Bench.PassLaws
import BenchHashmaps.Measure.FieldLaws

/-!
# The counters of a batch

A failed read gives zeros and is not told apart from a reading of zero, so
the difference of two reads is the increase of a field only when both reads of
its group came to the same end. When one of them failed, the other reading is
the result, or what is left of it below zero.
-/

namespace BenchHashmaps

open PerfCounters (Field get_sub)

variable {World : Type} {kernel : Kernel World} {recorder : X86Recorder}

/-- How far a field went up between two reads that succeeded, and 0 where one
of them did not. -/
def trueIncrease : Option UInt64 → Option UInt64 → Nat
  | some start, some stop => stop.toNat - start.toNat
  | _, _ => 0

/-- Both reads succeeded, or both failed, or the one that succeeded gave 0. -/
def Paired : Option UInt64 → Option UInt64 → Prop
  | some _, some _ => True
  | none, none => True
  | some start, none => start = 0
  | none, some stop => stop = 0

/-- The difference of the two reads did not wrap and is the true increase. -/
structure Increase (start stop : Option UInt64) (value : UInt64) : Prop where
  no_wrap : start.getD 0 ≤ stop.getD 0
  value : value.toNat = trueIncrease start stop

def Cumulative (kernel : Kernel World) (recorder : X86Recorder) (counter_set : PerfCounterSet)
    (start stop : World) : Prop :=
  ∀ field a b, recorder.reading kernel counter_set start field = some a →
    recorder.reading kernel counter_set stop field = some b → a ≤ b

theorem increase_iff {start stop : Option UInt64}
    (h : ∀ a b, start = some a → stop = some b → a ≤ b) :
    Increase start stop (stop.getD 0 - start.getD 0) ↔ Paired start stop := by
  cases start with
  | none =>
    cases stop with
    | none => exact iff_of_true ⟨le_refl _, rfl⟩ trivial
    | some b =>
      have hb : b - 0 = b := UInt64.sub_zero b
      constructor
      · intro hi
        have hvalue : (b - 0).toNat = 0 := hi.value
        rw [hb] at hvalue
        exact UInt64.toNat_inj.mp hvalue
      · rintro rfl
        exact ⟨le_refl _, rfl⟩
  | some a =>
    cases stop with
    | none =>
      constructor
      · exact fun hi => UInt64.le_zero_iff.mp hi.no_wrap
      · rintro rfl
        exact ⟨le_refl _, rfl⟩
    | some b =>
      have hle := h a b rfl rfl
      exact iff_of_true ⟨hle, UInt64.toNat_sub_of_le _ _ hle⟩ trivial

/-- Every field of the counters of a batch is its true increase precisely when
each group it reads was read twice, or not at all, or gave only zeros the one
time. -/
theorem batch_counters_iff
    (h : benchmarkBatch (recorder.toPerfRecorder kernel) lookups batch_size iters lookup_fn
      counter_set warmup_iters world = .ok (counter, sum, world')) :
    ∃ start s, Measured (recorder.toPerfRecorder kernel) lookups batch_size iters lookup_fn
        counter_set warmup_iters world start s ∧
      (Cumulative kernel recorder counter_set start s.world →
        ((∀ field : Field, Increase (recorder.reading kernel counter_set start field)
            (recorder.reading kernel counter_set s.world field) (field.get counter)) ↔
          ∀ field : Field, Paired (recorder.reading kernel counter_set start field)
            (recorder.reading kernel counter_set s.world field))) := by
  obtain ⟨start, s, hm⟩ := benchmarkBatch_measured h
  refine ⟨start, s, hm, fun hc => forall_congr' fun field => ?_⟩
  cases h.symm.trans hm.benchmarkBatch
  rw [get_sub]
  change Increase _ _ (field.get (recorder.getCounters kernel counter_set s.world).1 -
    field.get (recorder.getCounters kernel counter_set start).1) ↔ _
  rw [X86Recorder.get_getCounters, X86Recorder.get_getCounters]
  exact increase_iff (hc field)

-- ---------------------------------------------------------------------------
-- A kernel
-- ---------------------------------------------------------------------------

/-- Every count goes up by 100 from read to read, and after `good` reads they
come back short. -/
def countingKernel (good : Nat) : Kernel Nat where
  read _ words reads :=
    (if reads < good then words * 8 else 0,
      .ofFn fun i => if i.val = 0 then .ofNat (words - 3) else .ofNat (100 * (reads + 1)),
      reads + 1)
  ioctl _ _ reads := reads

def openedRecorder : X86Recorder where
  core := { fds := .ofFn fun i => i.val + 3, ok := true }
  l1d := { fds := .ofFn fun i => i.val + 7, ok := true }
  llc := { fds := .ofFn fun i => i.val + 9, ok := true }

theorem two_reads_counters : ∃ counter sum world',
    benchmarkBatch (openedRecorder.toPerfRecorder (countingKernel 2)) [1] 1 1 identityLookup .core
      1 0 = .ok (counter, sum, world') ∧ Increase (some 100) (some 200) counter.cycles := by
  obtain ⟨⟨counter, sum, world'⟩, hrun⟩ : ∃ r, benchmarkBatch (openedRecorder.toPerfRecorder
      (countingKernel 2)) [1] 1 1 identityLookup .core 1 0 = .ok r := ⟨_, rfl⟩
  obtain ⟨start, s, ⟨⟨warmup, hwarm, rfl⟩, hloop⟩, hiff⟩ := batch_counters_iff hrun
  cases hwarm
  cases hloop
  have hstart : ∀ field : Field, openedRecorder.reading (countingKernel 2) .core 0 field =
      if field.group = .core then some 100 else none := by
    intro field
    cases field <;> rfl
  have hstop : ∀ field : Field, openedRecorder.reading (countingKernel 2) .core 1 field =
      if field.group = .core then some 200 else none := by
    intro field
    cases field <;> rfl
  have hc : Cumulative (countingKernel 2) openedRecorder .core 0 1 := by
    intro field a b ha hb
    rw [hstart] at ha
    rw [hstop] at hb
    split at ha
    next hg =>
      rw [if_pos hg] at hb
      cases ha
      cases hb
      decide
    next => cases ha
  refine ⟨counter, sum, world', hrun, (hiff hc).mpr (fun field => ?_) .cycles⟩
  change Paired (openedRecorder.reading (countingKernel 2) .core 0 field)
    (openedRecorder.reading (countingKernel 2) .core 1 field)
  rw [hstart, hstop]
  split
  next => trivial
  next => trivial

/-- The second read is short, so the cycles of the first one are subtracted
from nothing. -/
theorem short_read_wraps : ∃ s counter sum world',
    Measured (openedRecorder.toPerfRecorder (countingKernel 1)) [1] 1 1 identityLookup .core 1 0 0
      s ∧
    openedRecorder.reading (countingKernel 1) .core s.world .cycles = none ∧
    benchmarkBatch (openedRecorder.toPerfRecorder (countingKernel 1)) [1] 1 1 identityLookup .core
      1 0 = .ok (counter, sum, world') ∧
    counter.cycles.toNat = 2 ^ 64 - 100 := by
  have hm : Measured (openedRecorder.toPerfRecorder (countingKernel 1)) [1] 1 1 identityLookup
      .core 1 0 0 { sum := 1, steps := 0, world := 1 } := ⟨⟨_, rfl, rfl⟩, rfl⟩
  exact ⟨_, _, _, _, hm, rfl, hm.benchmarkBatch, by decide +kernel⟩

end BenchHashmaps
