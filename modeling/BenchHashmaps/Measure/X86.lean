import BenchHashmaps.Measure

/-!
# Performance counters on x86

`measure_x86.cpp`: three groups of perf events, each read in one system call.
A group that was not opened, a short read and a group of too few events all
read as zeros. The kernel acts on the world; what it leaves in the buffer of a
read is not specified.
-/

namespace BenchHashmaps

variable {World : Type} {EventCount : Nat}

inductive IoctlRequest
  | PERF_EVENT_IOC_ENABLE
  | PERF_EVENT_IOC_DISABLE
  deriving DecidableEq, Repr

/-- `::read(fd, data, words * sizeof(uint64_t))` gives its result and the
buffer, `ioctl` is called with `PERF_IOC_FLAG_GROUP`. -/
structure Kernel (World : Type) where
  read : Int → (words : Nat) → World → Int × Vector UInt64 words × World
  ioctl : Int → IoctlRequest → World → World

structure PerfEventGroupBase (EventCount : Nat) where
  fds : Vector Int EventCount
  ok : Bool

namespace PerfEventGroupBase

def enable [NeZero EventCount] (kernel : Kernel World) (group : PerfEventGroupBase EventCount)
    (world : World) : World :=
  if group.ok then kernel.ioctl (group.fds.get 0) .PERF_EVENT_IOC_ENABLE world else world

def disable [NeZero EventCount] (kernel : Kernel World) (group : PerfEventGroupBase EventCount)
    (world : World) : World :=
  if group.ok then kernel.ioctl (group.fds.get 0) .PERF_EVENT_IOC_DISABLE world else world

/-- The checks every `read` starts with; `none` is where it returns zeros.
The words are the number of events, the two times, and the events. -/
def readWords [NeZero EventCount] (kernel : Kernel World) (group : PerfEventGroupBase EventCount)
    (world : World) : Option (Vector UInt64 (3 + EventCount)) × World :=
  if group.ok then
    let (res, data, world) := kernel.read (group.fds.get 0) (3 + EventCount) world
    if res < (3 + EventCount) * 8 ∨ data[0].toNat < EventCount then (none, world)
    else (some data, world)
  else (none, world)

end PerfEventGroupBase

abbrev BASE_EVENT_COUNT : Nat := 4
abbrev L1D_EVENT_COUNT : Nat := 2
abbrev LLC_EVENT_COUNT : Nat := 2

instance : NeZero BASE_EVENT_COUNT := ⟨by decide⟩
instance : NeZero L1D_EVENT_COUNT := ⟨by decide⟩

abbrev PerfEventGroup := PerfEventGroupBase BASE_EVENT_COUNT
abbrev L1dEventGroup := PerfEventGroupBase L1D_EVENT_COUNT
abbrev LlcEventGroup := PerfEventGroupBase LLC_EVENT_COUNT

def PerfEventGroup.read (kernel : Kernel World) (group : PerfEventGroup) (world : World) :
    PerfCounters × World :=
  match group.readWords kernel world with
  | (some data, world) =>
    ({ cycles := data[3]
       branches := data[4]
       missed_branches := data[5]
       instructions := data[6]
       core_time_enabled := data[1]
       core_time_running := data[2] }, world)
  | (none, world) => ({}, world)

structure CacheCounters where
  accesses : UInt64 := 0
  misses : UInt64 := 0
  time_enabled : UInt64 := 0
  time_running : UInt64 := 0
  deriving DecidableEq, Repr

def readCache (kernel : Kernel World) (group : PerfEventGroupBase 2) (world : World) :
    CacheCounters × World :=
  match group.readWords kernel world with
  | (some data, world) =>
    ({ accesses := data[3]
       misses := data[4]
       time_enabled := data[1]
       time_running := data[2] }, world)
  | (none, world) => ({}, world)

def L1dEventGroup.read (kernel : Kernel World) (group : L1dEventGroup) (world : World) :
    CacheCounters × World :=
  readCache kernel group world

def LlcEventGroup.read (kernel : Kernel World) (group : LlcEventGroup) (world : World) :
    CacheCounters × World :=
  readCache kernel group world

structure X86Recorder where
  core : PerfEventGroup
  l1d : L1dEventGroup
  llc : LlcEventGroup

namespace X86Recorder

def disableAll (kernel : Kernel World) (recorder : X86Recorder) (world : World) : World :=
  let world := recorder.core.disable kernel world
  let world := recorder.l1d.disable kernel world
  recorder.llc.disable kernel world

def enable (kernel : Kernel World) (recorder : X86Recorder) (set : PerfCounterSet)
    (world : World) : World :=
  let world := recorder.disableAll kernel world
  if set = .core then recorder.core.enable kernel world
  else
    let world := recorder.l1d.enable kernel world
    recorder.llc.enable kernel world

def getCounters (kernel : Kernel World) (recorder : X86Recorder) (set : PerfCounterSet)
    (world : World) : PerfCounters × World :=
  if set = .core then PerfEventGroup.read kernel recorder.core world
  else
    let (l1d_counters, world) := L1dEventGroup.read kernel recorder.l1d world
    let (llc_counters, world) := LlcEventGroup.read kernel recorder.llc world
    ({ l1d_accesses := l1d_counters.accesses
       l1d_misses := l1d_counters.misses
       l1d_time_enabled := l1d_counters.time_enabled
       l1d_time_running := l1d_counters.time_running
       llc_accesses := llc_counters.accesses
       llc_misses := llc_counters.misses
       llc_time_enabled := llc_counters.time_enabled
       llc_time_running := llc_counters.time_running }, world)

/-- `RECORDER` on x86, which forwards to one instance of this recorder. -/
def toPerfRecorder (kernel : Kernel World) (recorder : X86Recorder) : PerfRecorder World where
  get_counters := recorder.getCounters kernel
  enable := recorder.enable kernel
  disable_all := recorder.disableAll kernel

end X86Recorder

end BenchHashmaps
