import BenchHashmaps.Measure.X86

/-!
# Counters field by field

A counter record has 14 fields of the same kind, so what a read or a
subtraction does is said once for a field: which group it belongs to, and
which word of that group's buffer holds it.
-/

namespace BenchHashmaps

variable {World : Type} {EventCount : Nat}

inductive EventGroup
  | core
  | l1d
  | llc
  deriving DecidableEq, Repr

namespace PerfCounters

inductive Field
  | cycles
  | branches
  | missed_branches
  | instructions
  | l1d_accesses
  | l1d_misses
  | llc_accesses
  | llc_misses
  | core_time_enabled
  | core_time_running
  | l1d_time_enabled
  | l1d_time_running
  | llc_time_enabled
  | llc_time_running
  deriving DecidableEq, Repr

def Field.get (counter : PerfCounters) : Field → UInt64
  | .cycles => counter.cycles
  | .branches => counter.branches
  | .missed_branches => counter.missed_branches
  | .instructions => counter.instructions
  | .l1d_accesses => counter.l1d_accesses
  | .l1d_misses => counter.l1d_misses
  | .llc_accesses => counter.llc_accesses
  | .llc_misses => counter.llc_misses
  | .core_time_enabled => counter.core_time_enabled
  | .core_time_running => counter.core_time_running
  | .l1d_time_enabled => counter.l1d_time_enabled
  | .l1d_time_running => counter.l1d_time_running
  | .llc_time_enabled => counter.llc_time_enabled
  | .llc_time_running => counter.llc_time_running

def Field.group : Field → EventGroup
  | .cycles | .branches | .missed_branches | .instructions | .core_time_enabled
  | .core_time_running => .core
  | .l1d_accesses | .l1d_misses | .l1d_time_enabled | .l1d_time_running => .l1d
  | .llc_accesses | .llc_misses | .llc_time_enabled | .llc_time_running => .llc

def Field.word : Field → Nat
  | .core_time_enabled | .l1d_time_enabled | .llc_time_enabled => 1
  | .core_time_running | .l1d_time_running | .llc_time_running => 2
  | .cycles | .l1d_accesses | .llc_accesses => 3
  | .branches | .l1d_misses | .llc_misses => 4
  | .missed_branches => 5
  | .instructions => 6

@[simp] theorem get_sub (a b : PerfCounters) (field : Field) :
    field.get (a - b) = field.get a - field.get b := by
  cases field <;> rfl

end PerfCounters

-- ---------------------------------------------------------------------------
-- One group
-- ---------------------------------------------------------------------------

def PerfEventGroupBase.word [NeZero EventCount] (kernel : Kernel World)
    (group : PerfEventGroupBase EventCount) (world : World) (i : Nat) : Option UInt64 :=
  (group.readWords kernel world).1.bind fun data => data[i]?

theorem PerfEventGroup.read_eq (kernel : Kernel World) (group : PerfEventGroup) (world : World) :
    PerfEventGroup.read kernel group world =
      ({ cycles := (group.word kernel world 3).getD 0
         branches := (group.word kernel world 4).getD 0
         missed_branches := (group.word kernel world 5).getD 0
         instructions := (group.word kernel world 6).getD 0
         core_time_enabled := (group.word kernel world 1).getD 0
         core_time_running := (group.word kernel world 2).getD 0 },
        (group.readWords kernel world).2) := by
  simp only [PerfEventGroup.read, PerfEventGroupBase.word]
  split
  next h => rw [h]; rfl
  next h => rw [h]; rfl

theorem readCache_eq (kernel : Kernel World) (group : PerfEventGroupBase 2) (world : World) :
    readCache kernel group world =
      ({ accesses := (group.word kernel world 3).getD 0
         misses := (group.word kernel world 4).getD 0
         time_enabled := (group.word kernel world 1).getD 0
         time_running := (group.word kernel world 2).getD 0 },
        (group.readWords kernel world).2) := by
  simp only [readCache, PerfEventGroupBase.word]
  split
  next h => rw [h]; rfl
  next h => rw [h]; rfl

-- ---------------------------------------------------------------------------
-- One read of a counter set
-- ---------------------------------------------------------------------------

namespace X86Recorder

open PerfCounters (Field)

/-- What `get_counters` read for a field: `none` when the read of its group
failed or the set does not have the group. The LLC group is read last. -/
def reading (kernel : Kernel World) (recorder : X86Recorder) (set : PerfCounterSet)
    (world : World) (field : Field) : Option UInt64 :=
  match set, field.group with
  | .core, .core => recorder.core.word kernel world field.word
  | .cache, .l1d => recorder.l1d.word kernel world field.word
  | .cache, .llc => recorder.llc.word kernel (recorder.l1d.readWords kernel world).2 field.word
  | _, _ => none

theorem get_getCounters (kernel : Kernel World) (recorder : X86Recorder) (set : PerfCounterSet)
    (world : World) (field : Field) :
    field.get (recorder.getCounters kernel set world).1 =
      (recorder.reading kernel set world field).getD 0 := by
  cases set with
  | core =>
    rw [getCounters, if_pos rfl, PerfEventGroup.read_eq]
    cases field <;> rfl
  | cache =>
    simp only [getCounters, L1dEventGroup.read, LlcEventGroup.read, readCache_eq, reduceCtorEq,
      if_false]
    cases field <;> rfl

end X86Recorder

end BenchHashmaps
