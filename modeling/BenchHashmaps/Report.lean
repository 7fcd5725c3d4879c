import BenchHashmaps.Bench

/-!
# The report

The arithmetic behind one cell of the tables `main.cpp` prints: counters are
scaled by how long their group was on the hardware, cycles are divided by the
lookups, and misses become hit rates.
-/

namespace BenchHashmaps

/-- A signed `__int128` result; beyond its range the behaviour is undefined. -/
def toInt128 (x : Int) : Option Int :=
  if -2 ^ 127 ≤ x ∧ x < 2 ^ 127 then some x else none

def hitRatePercent (accesses misses : UInt64) : String :=
  if accesses = 0 then "na"
  else if misses ≥ accesses then "0"
  else toString (100 - misses * 100 / accesses)

def scaleCounter (count time_enabled time_running : UInt64) : Option UInt64 :=
  if time_enabled = 0 ∨ time_running = 0 then some count
  else if time_enabled = time_running then some count
  else do
    let product ← toInt128 (count.toNat * time_enabled.toNat)
    let scaled := product.tdiv time_running.toNat
    pure (.ofInt scaled)

def formatCell (result : BenchResult) : Option String := do
  let counter := result.counter
  let cycles ← scaleCounter counter.cycles counter.core_time_enabled counter.core_time_running
  let branches ← scaleCounter counter.branches counter.core_time_enabled counter.core_time_running
  let missed_branches ←
    scaleCounter counter.missed_branches counter.core_time_enabled counter.core_time_running
  let l1d_accesses ←
    scaleCounter counter.l1d_accesses counter.l1d_time_enabled counter.l1d_time_running
  let l1d_misses ← scaleCounter counter.l1d_misses counter.l1d_time_enabled counter.l1d_time_running
  let llc_accesses ←
    scaleCounter counter.llc_accesses counter.llc_time_enabled counter.llc_time_running
  let llc_misses ← scaleCounter counter.llc_misses counter.llc_time_enabled counter.llc_time_running
  let cycles_per_lookup := if result.lookups = 0 then 0 else cycles / result.lookups
  let branch_hit := hitRatePercent branches missed_branches
  let l1d_hit := hitRatePercent l1d_accesses l1d_misses
  let llc_hit := hitRatePercent llc_accesses llc_misses
  pure s!"{cycles_per_lookup}/{branch_hit}/{l1d_hit}/{llc_hit}"

end BenchHashmaps
