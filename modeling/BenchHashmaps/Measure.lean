import BenchHashmaps.Base

/-!
# Performance counters

`measure.hpp`. Reading the hardware is outside the program: a recorder acts on
a world, which also holds whatever else a benchmark can observe or change.
-/

namespace BenchHashmaps

structure PerfCounters where
  cycles : UInt64 := 0
  branches : UInt64 := 0
  missed_branches : UInt64 := 0
  instructions : UInt64 := 0
  l1d_accesses : UInt64 := 0
  l1d_misses : UInt64 := 0
  llc_accesses : UInt64 := 0
  llc_misses : UInt64 := 0
  core_time_enabled : UInt64 := 0
  core_time_running : UInt64 := 0
  l1d_time_enabled : UInt64 := 0
  l1d_time_running : UInt64 := 0
  llc_time_enabled : UInt64 := 0
  llc_time_running : UInt64 := 0
  deriving DecidableEq, Repr

instance : Sub PerfCounters where
  sub a b :=
    { cycles := a.cycles - b.cycles
      branches := a.branches - b.branches
      missed_branches := a.missed_branches - b.missed_branches
      instructions := a.instructions - b.instructions
      l1d_accesses := a.l1d_accesses - b.l1d_accesses
      l1d_misses := a.l1d_misses - b.l1d_misses
      llc_accesses := a.llc_accesses - b.llc_accesses
      llc_misses := a.llc_misses - b.llc_misses
      core_time_enabled := a.core_time_enabled - b.core_time_enabled
      core_time_running := a.core_time_running - b.core_time_running
      l1d_time_enabled := a.l1d_time_enabled - b.l1d_time_enabled
      l1d_time_running := a.l1d_time_running - b.l1d_time_running
      llc_time_enabled := a.llc_time_enabled - b.llc_time_enabled
      llc_time_running := a.llc_time_running - b.llc_time_running }

inductive PerfCounterSet
  | core
  | cache
  deriving DecidableEq, Repr

/-- `RECORDER`. -/
structure PerfRecorder (World : Type) where
  get_counters : PerfCounterSet → World → PerfCounters × World
  enable : PerfCounterSet → World → World
  disable_all : World → World

end BenchHashmaps
