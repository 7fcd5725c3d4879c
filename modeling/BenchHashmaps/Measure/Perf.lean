import BenchHashmaps.Measure.X86

/-!
# Perf events and who opens them

The constructors and destructors of `measure_x86.cpp`. The kernel is outside
the program, which sees it through system calls. What the calls do is taken
from `perf_event_open(2)`, as far as the program relies on it: events are
opened under descriptors, alone or as members of a leader's group, and one
read of a leader gives the counts of its whole group.
-/

namespace BenchHashmaps

variable {World : Type} {EventCount : Nat}

-- ---------------------------------------------------------------------------
-- Attributes
-- ---------------------------------------------------------------------------

inductive PerfType
  | PERF_TYPE_HARDWARE
  | PERF_TYPE_HW_CACHE
  deriving DecidableEq, Repr

def PERF_COUNT_HW_CPU_CYCLES : UInt64 := 0
def PERF_COUNT_HW_INSTRUCTIONS : UInt64 := 1
def PERF_COUNT_HW_BRANCH_INSTRUCTIONS : UInt64 := 4
def PERF_COUNT_HW_BRANCH_MISSES : UInt64 := 5

def PERF_COUNT_HW_CACHE_L1D : UInt64 := 0
def PERF_COUNT_HW_CACHE_LL : UInt64 := 2
def PERF_COUNT_HW_CACHE_OP_READ : UInt64 := 0
def PERF_COUNT_HW_CACHE_RESULT_ACCESS : UInt64 := 0
def PERF_COUNT_HW_CACHE_RESULT_MISS : UInt64 := 1

def PERF_FORMAT_TOTAL_TIME_ENABLED : UInt64 := 1
def PERF_FORMAT_TOTAL_TIME_RUNNING : UInt64 := 2
def PERF_FORMAT_GROUP : UInt64 := 8

/-- The fields of `perf_event_attr` the program sets, but for `size`. -/
structure PerfEventAttr where
  type : PerfType
  disabled : Bool
  exclude_kernel : Bool
  exclude_hv : Bool
  read_format : UInt64
  config : UInt64
  deriving DecidableEq, Repr

/-- What each `open_group` fills in for its leader. -/
def leaderAttr (type : PerfType) (config : UInt64) : PerfEventAttr where
  type
  disabled := true
  exclude_kernel := true
  exclude_hv := true
  read_format :=
    PERF_FORMAT_GROUP ||| PERF_FORMAT_TOTAL_TIME_ENABLED ||| PERF_FORMAT_TOTAL_TIME_RUNNING
  config

/-- What `open_member_hw` and `open_member_cache` fill in. -/
def memberAttr (type : PerfType) (config : UInt64) : PerfEventAttr where
  type
  disabled := false
  exclude_kernel := true
  exclude_hv := true
  read_format := 0
  config

def cacheConfig (cache_id op result : UInt64) : UInt64 :=
  cache_id ||| op <<< 8 ||| result <<< 16

-- ---------------------------------------------------------------------------
-- The kernel
-- ---------------------------------------------------------------------------

/-- An open event. A leader leads itself and knows its siblings in the order
they joined; `disabled` only says how an event starts. -/
structure PerfEvent where
  attr : PerfEventAttr
  enabled : Bool
  leader : Int
  siblings : List Int
  deriving DecidableEq, Repr

/-- The event under the descriptor `fd'` when `fd` is closed: the siblings of a
closed leader go on alone. -/
def PerfEvent.detached (fd fd' : Int) (e : PerfEvent) : PerfEvent :=
  if e.leader = fd then { e with leader := fd', siblings := [] }
  else { e with siblings := e.siblings.filter (· ≠ fd) }

def IoctlRequest.enables : IoctlRequest → Bool
  | PERF_EVENT_IOC_ENABLE => true
  | PERF_EVENT_IOC_DISABLE => false

def PerfEvent.switched (fd : Int) (request : IoctlRequest) (e : PerfEvent) : PerfEvent :=
  if e.leader = fd then { e with enabled := request.enables } else e

/-- The system calls, for this process on any processor and with no flags, and
what shows of them: the open events, their counts and times, and how often a
call was made on a descriptor without an event. -/
structure PerfKernel (World : Type) extends Kernel World where
  perf_event_open : PerfEventAttr → (group_fd : Int) → World → Int × World
  close : Int → World → World
  /-- `std::println(stderr, "{}", text)` -/
  println : String → World → World
  errno : World → Int
  strerror : Int → String
  event : World → Int → Option PerfEvent
  count : World → Int → UInt64
  time_enabled : World → Int → UInt64
  time_running : World → Int → UInt64
  misused : World → Nat
  leader_open : ∀ {world fd e}, event world fd = some e → (event world e.leader).isSome
  siblings_open : ∀ {world fd e}, event world fd = some e →
    ∀ fd' ∈ e.siblings, (event world fd').isSome
  open_result : ∀ attr group_fd world, (perf_event_open attr group_fd world).1 = -1 ∨
    0 ≤ (perf_event_open attr group_fd world).1
  open_fails : ∀ {attr group_fd world}, (perf_event_open attr group_fd world).1 = -1 →
    event (perf_event_open attr group_fd world).2 = event world
  open_fresh : ∀ {attr group_fd world}, 0 ≤ (perf_event_open attr group_fd world).1 →
    event world (perf_event_open attr group_fd world).1 = none
  open_leader : ∀ {attr world fd}, (perf_event_open attr (-1) world).1 = fd → 0 ≤ fd →
    event (perf_event_open attr (-1) world).2 = fun fd' =>
      if fd' = fd then some ⟨attr, !attr.disabled, fd, []⟩ else event world fd'
  open_member : ∀ {attr group_fd world fd e}, (perf_event_open attr group_fd world).1 = fd →
    0 ≤ fd → event world group_fd = some e → e.leader = group_fd →
    event (perf_event_open attr group_fd world).2 = fun fd' =>
      if fd' = fd then some ⟨attr, !attr.disabled, group_fd, []⟩
      else if fd' = group_fd then some { e with siblings := e.siblings ++ [fd] }
      else event world fd'
  open_used : ∀ {attr group_fd world}, group_fd = -1 ∨ (event world group_fd).isSome →
    misused (perf_event_open attr group_fd world).2 = misused world
  close_event : ∀ {fd world}, (event world fd).isSome → event (close fd world) = fun fd' =>
    if fd' = fd then none else (event world fd').map (PerfEvent.detached fd fd')
  close_used : ∀ {fd world},
    misused (close fd world) = misused world + if (event world fd).isSome then 0 else 1
  ioctl_event : ∀ {fd request world e}, event world fd = some e → e.leader = fd →
    event (ioctl fd request world) = fun fd' =>
      (event world fd').map (PerfEvent.switched fd request)
  ioctl_used : ∀ {fd request world},
    misused (ioctl fd request world) = misused world + if (event world fd).isSome then 0 else 1
  read_event : ∀ {fd words world}, event (read fd words world).2.2 = event world
  read_used : ∀ {fd words world},
    misused (read fd words world).2.2 = misused world + if (event world fd).isSome then 0 else 1
  /-- A read that is not short gives the number of events, the two times and
  the counts of the group, the leader's first. -/
  read_words : ∀ {fd words world e}, event world fd = some e → e.leader = fd →
    e.attr.read_format =
      PERF_FORMAT_GROUP ||| PERF_FORMAT_TOTAL_TIME_ENABLED ||| PERF_FORMAT_TOTAL_TIME_RUNNING →
    words * 8 ≤ (read fd words world).1 → ∀ i word, i < words →
    (UInt64.ofNat (1 + e.siblings.length) :: time_enabled world fd :: time_running world fd ::
      (fd :: e.siblings).map (count world))[i]? = some word →
    (read fd words world).2.1[i]? = some word
  println_event : ∀ {text world}, event (println text world) = event world
  println_used : ∀ {text world}, misused (println text world) = misused world

namespace PerfKernel

/-- An event counts while it and its leader are enabled. -/
def Counting (kernel : PerfKernel World) (world : World) (fd : Int) : Prop :=
  ∃ e leader, kernel.event world fd = some e ∧ kernel.event world e.leader = some leader ∧
    e.enabled = true ∧ leader.enabled = true

def openEvent (kernel : PerfKernel World) (attr : PerfEventAttr) (group_fd : Int) (name : String)
    (world : World) : Int × World :=
  let (fd, world) := kernel.perf_event_open attr group_fd world
  if fd < 0 then
    let errno := kernel.errno world
    let message := kernel.strerror errno
    let text := s!"perf: perf_event_open failed for {name}: {message} (errno={errno})"
    (fd, kernel.println text world)
  else (fd, world)

end PerfKernel

-- ---------------------------------------------------------------------------
-- Groups
-- ---------------------------------------------------------------------------

namespace PerfEventGroupBase

/-- `PerfEventGroupBase()` -/
def closed (EventCount : Nat) : PerfEventGroupBase EventCount where
  fds := Vector.replicate EventCount (-1)
  ok := false

def closeAll (kernel : PerfKernel World) (group : PerfEventGroupBase EventCount) (world : World) :
    PerfEventGroupBase EventCount × World :=
  (closed EventCount,
    group.fds.toList.foldl (fun world fd => if fd ≠ -1 then kernel.close fd world else world)
      world)

end PerfEventGroupBase

open PerfEventGroupBase (closed closeAll)

/-- `open_group` of the core events, on a closed group. All three members are
tried before it gives up; a leader that failed leaves its `fd` behind. -/
def PerfEventGroup.openGroup (kernel : PerfKernel World) (world : World) :
    PerfEventGroup × World :=
  let (leader, world) := kernel.openEvent
    (leaderAttr .PERF_TYPE_HARDWARE PERF_COUNT_HW_CPU_CYCLES) (-1) "cpu-cycles" world
  if leader < 0 then ({ fds := #v[leader, -1, -1, -1], ok := false }, world) else
  let open_member_hw := fun config name world =>
    kernel.openEvent (memberAttr .PERF_TYPE_HARDWARE config) leader name world
  let (branches, world) :=
    open_member_hw PERF_COUNT_HW_BRANCH_INSTRUCTIONS "branch-instructions" world
  let (misses, world) := open_member_hw PERF_COUNT_HW_BRANCH_MISSES "branch-misses" world
  let (instructions, world) := open_member_hw PERF_COUNT_HW_INSTRUCTIONS "instructions" world
  let group : PerfEventGroup := { fds := #v[leader, branches, misses, instructions], ok := false }
  if branches < 0 ∨ misses < 0 ∨ instructions < 0 then group.closeAll kernel world
  else ({ group with ok := true }, world)

def openCacheGroup (kernel : PerfKernel World) (cache_id : UInt64) (access miss : String)
    (world : World) : PerfEventGroupBase 2 × World :=
  let (leader, world) := kernel.openEvent
    (leaderAttr .PERF_TYPE_HW_CACHE
      (cacheConfig cache_id PERF_COUNT_HW_CACHE_OP_READ PERF_COUNT_HW_CACHE_RESULT_ACCESS))
    (-1) access world
  if leader < 0 then
    PerfEventGroupBase.closeAll kernel { fds := #v[leader, -1], ok := false } world
  else
  let (misses, world) := kernel.openEvent
    (memberAttr .PERF_TYPE_HW_CACHE
      (cacheConfig cache_id PERF_COUNT_HW_CACHE_OP_READ PERF_COUNT_HW_CACHE_RESULT_MISS))
    leader miss world
  let group : PerfEventGroupBase 2 := { fds := #v[leader, misses], ok := false }
  if misses < 0 then group.closeAll kernel world
  else ({ group with ok := true }, world)

def L1dEventGroup.openGroup (kernel : PerfKernel World) (world : World) :
    L1dEventGroup × World :=
  openCacheGroup kernel PERF_COUNT_HW_CACHE_L1D "l1d-read-access" "l1d-read-miss" world

def LlcEventGroup.openGroup (kernel : PerfKernel World) (world : World) :
    LlcEventGroup × World :=
  openCacheGroup kernel PERF_COUNT_HW_CACHE_LL "llc-read-access" "llc-read-miss" world

/-- What the constructors of the cache groups do with the result of
`open_group`. -/
def reportUnavailable (kernel : PerfKernel World) (text : String)
    (opened : PerfEventGroupBase 2 × World) : PerfEventGroupBase 2 × World :=
  if opened.1.ok then opened else (opened.1, kernel.println text opened.2)

def L1dEventGroup.new (kernel : PerfKernel World) (world : World) : L1dEventGroup × World :=
  reportUnavailable kernel "perf: L1D events unavailable" (L1dEventGroup.openGroup kernel world)

def LlcEventGroup.new (kernel : PerfKernel World) (world : World) : LlcEventGroup × World :=
  reportUnavailable kernel "perf: LLC events unavailable" (LlcEventGroup.openGroup kernel world)

-- ---------------------------------------------------------------------------
-- The recorder
-- ---------------------------------------------------------------------------

namespace X86Recorder

def new (kernel : PerfKernel World) (world : World) : X86Recorder × World :=
  let (core, world) := PerfEventGroup.openGroup kernel world
  let (l1d, world) := L1dEventGroup.new kernel world
  let (llc, world) := LlcEventGroup.new kernel world
  ({ core, l1d, llc }, world)

/-- The members are destroyed in the opposite order; `~PerfEventGroupBase()` is
`close_all()`. -/
def destroy (kernel : PerfKernel World) (recorder : X86Recorder) (world : World) : World :=
  let (_, world) := recorder.llc.closeAll kernel world
  let (_, world) := recorder.l1d.closeAll kernel world
  (recorder.core.closeAll kernel world).2

end X86Recorder

inductive RecorderCall
  | enable (set : PerfCounterSet)
  | disable_all
  | get_counters (set : PerfCounterSet)
  deriving DecidableEq, Repr

/-- What a call leaves of the world; its counters are those of
`X86Recorder.getCounters`. -/
def RecorderCall.exec (kernel : Kernel World) (recorder : X86Recorder) (world : World) :
    RecorderCall → World
  | .enable set => recorder.enable kernel set world
  | .disable_all => recorder.disableAll kernel world
  | .get_counters set => (recorder.getCounters kernel set world).2

-- ---------------------------------------------------------------------------
-- A kernel
-- ---------------------------------------------------------------------------

/-- What is open has been opened, with its group. -/
structure Tabled (next : Int) (event : Int → Option PerfEvent) : Prop where
  nonneg : 0 ≤ next
  below : ∀ {fd e}, event fd = some e → 0 ≤ fd ∧ fd < next
  leader_open : ∀ {fd e}, event fd = some e → (event e.leader).isSome
  siblings_open : ∀ {fd e}, event fd = some e → ∀ fd' ∈ e.siblings, (event fd').isSome

namespace Tabled

variable {next : Int} {event : Int → Option PerfEvent}

theorem fresh (h : Tabled next event) : event next = none := by
  cases he : event next with
  | none => rfl
  | some e => exact absurd (h.below he).2 (lt_irrefl _)

theorem alone (h : Tabled next event) : event (-1) = none := by
  cases he : event (-1) with
  | none => rfl
  | some e => exact absurd (h.below he).1 (by decide)

def joined (event : Int → Option PerfEvent) (next : Int) (attr : PerfEventAttr)
    (group_fd : Int) (fd : Int) : Option PerfEvent :=
  if fd = next then
    some ⟨attr, !attr.disabled, if group_fd = -1 then next else group_fd, []⟩
  else if fd = group_fd then
    (event fd).map fun e => { e with siblings := e.siblings ++ [next] }
  else event fd

theorem isSome_joined (h : (event fd).isSome) : (joined event next attr group_fd fd).isSome := by
  rw [joined]
  split
  · rfl
  · split
    · rwa [Option.isSome_map]
    · exact h

theorem join (h : Tabled next event) (attr : PerfEventAttr)
    (hgroup : group_fd = -1 ∨ (event group_fd).isSome) :
    Tabled (next + 1) (joined event next attr group_fd) where
  nonneg := by have := h.nonneg; omega
  below := by
    intro fd e he
    have hnext := h.nonneg
    by_cases hfd : fd = next
    · omega
    · have hopen : (event fd).isSome := by
        rw [joined, if_neg hfd] at he
        split at he
        · rw [← Option.isSome_map, he]
          rfl
        · rw [he]
          rfl
      obtain ⟨e', he'⟩ := Option.isSome_iff_exists.mp hopen
      have := h.below he'
      omega
  leader_open := by
    intro fd e he
    rw [joined] at he
    split at he
    · cases he
      dsimp only
      split
      · rw [joined, if_pos rfl]
        rfl
      · exact isSome_joined (hgroup.resolve_left ‹_›)
    · refine isSome_joined ?_
      split at he
      · obtain ⟨e', he', rfl⟩ := Option.map_eq_some_iff.mp he
        have hopen := h.leader_open he'
        exact hopen
      · exact h.leader_open he
  siblings_open := by
    intro fd e he fd' hfd'
    rw [joined] at he
    split at he
    · cases he
      cases hfd'
    · split at he
      · obtain ⟨e', he', rfl⟩ := Option.map_eq_some_iff.mp he
        rcases List.mem_append.mp hfd' with hold | hnew
        · exact isSome_joined (h.siblings_open he' fd' hold)
        · rw [List.mem_singleton.mp hnew, joined, if_pos rfl]
          rfl
      · exact isSome_joined (h.siblings_open he fd' hfd')

theorem close (h : Tabled next event) (fd : Int) :
    Tabled next fun fd' => if fd' = fd then none else
      (event fd').map (PerfEvent.detached fd fd') where
  nonneg := h.nonneg
  below := by
    intro fd' e he
    split at he
    · cases he
    · obtain ⟨e', he', -⟩ := Option.map_eq_some_iff.mp he
      exact h.below he'
  leader_open := by
    intro fd' e he
    split at he
    · cases he
    · obtain ⟨e', he', rfl⟩ := Option.map_eq_some_iff.mp he
      by_cases hleader : e'.leader = fd
      · simp [PerfEvent.detached, *]
      · have hopen := h.leader_open he'
        simp [PerfEvent.detached, hleader, hopen]
  siblings_open := by
    intro fd' e he sibling hsibling
    split at he
    · cases he
    · obtain ⟨e', he', rfl⟩ := Option.map_eq_some_iff.mp he
      by_cases hleader : e'.leader = fd
      · simp [PerfEvent.detached, hleader] at hsibling
      · rw [PerfEvent.detached, if_neg hleader] at hsibling
        obtain ⟨hmem, hne⟩ := List.mem_filter.mp hsibling
        rw [if_neg (of_decide_eq_true hne), Option.isSome_map]
        exact h.siblings_open he' sibling hmem

theorem ioctl (h : Tabled next event) (fd : Int) (request : IoctlRequest) :
    Tabled next fun fd' => (event fd').map (PerfEvent.switched fd request) where
  nonneg := h.nonneg
  below := by
    intro fd' e he
    obtain ⟨e', he', -⟩ := Option.map_eq_some_iff.mp he
    exact h.below he'
  leader_open := by
    intro fd' e he
    obtain ⟨e', he', rfl⟩ := Option.map_eq_some_iff.mp he
    have hopen := h.leader_open he'
    rw [Option.isSome_map, PerfEvent.switched]
    split <;> exact hopen
  siblings_open := by
    intro fd' e he sibling hsibling
    obtain ⟨e', he', rfl⟩ := Option.map_eq_some_iff.mp he
    rw [Option.isSome_map]
    rw [PerfEvent.switched] at hsibling
    split at hsibling <;> exact h.siblings_open he' sibling hsibling

end Tabled

/-- A process that may open `left` more events. No descriptor is used again,
and an event counts the ticks it is enabled for. -/
structure PerfState where
  next : Int
  left : Nat
  event : Int → Option PerfEvent
  ticks : Int → UInt64
  stderr : List String
  misused : Nat
  tabled : Tabled next event

namespace PerfState

def initial (left : Nat) : PerfState where
  next := 0
  left
  event := fun _ => none
  ticks := fun _ => 0
  stderr := []
  misused := 0
  tabled := ⟨le_refl 0, nofun, nofun, nofun⟩

def tick (state : PerfState) : PerfState :=
  { state with
    ticks := fun fd =>
      let on := (state.event fd).any fun e => e.enabled && (state.event e.leader).any (·.enabled)
      if on then state.ticks fd + 1 else state.ticks fd }

def used (state : PerfState) (fd : Int) : Nat :=
  state.misused + if (state.event fd).isSome then 0 else 1

def perfEventOpen (attr : PerfEventAttr) (group_fd : Int) (state : PerfState) :
    Int × PerfState :=
  if hgroup : group_fd = -1 ∨ (state.event group_fd).isSome then
    if state.left = 0 then (-1, state) else
    (state.next,
      { state with
        next := state.next + 1
        left := state.left - 1
        event := Tabled.joined state.event state.next attr group_fd
        tabled := state.tabled.join attr hgroup })
  else (-1, { state with misused := state.misused + 1 })

def close (fd : Int) (state : PerfState) : PerfState :=
  { state with
    event := fun fd' => if fd' = fd then none else
      (state.event fd').map (PerfEvent.detached fd fd')
    misused := state.used fd
    tabled := state.tabled.close fd }

def ioctl (fd : Int) (request : IoctlRequest) (state : PerfState) : PerfState :=
  { state with
    event := fun fd' => (state.event fd').map (PerfEvent.switched fd request)
    misused := state.used fd
    tabled := state.tabled.ioctl fd request }

/-- A read of the leader's group, which fails where the buffer is too small. -/
def read (fd : Int) (words : Nat) (state : PerfState) : Int × Vector UInt64 words × PerfState :=
  let group := ((state.event fd).map fun e => fd :: e.siblings).getD []
  let data := UInt64.ofNat group.length :: state.ticks fd :: state.ticks fd ::
    group.map state.ticks
  let res : Int := if group = [] ∨ words < data.length then -1 else data.length * 8
  (res, Vector.ofFn fun i : Fin words => data.getD i 0, { state with misused := state.used fd })

def kernel : PerfKernel PerfState where
  read := read
  ioctl := ioctl
  perf_event_open := perfEventOpen
  close := close
  println text state := { state with stderr := state.stderr ++ [text] }
  errno _ := 24
  strerror _ := "Too many open files"
  event := event
  count := ticks
  time_enabled := ticks
  time_running := ticks
  misused := misused
  leader_open {state _ _} := state.tabled.leader_open
  siblings_open {state _ _} := state.tabled.siblings_open
  open_result attr group_fd state := by
    rw [perfEventOpen]
    split
    · split
      · exact .inl rfl
      · exact .inr state.tabled.nonneg
    · exact .inl rfl
  open_fails {attr group_fd state} h := by
    rw [perfEventOpen] at h ⊢
    split at h
    · split at h
      · simp [*]
      · have := state.tabled.nonneg
        dsimp only at h
        omega
    · simp [*]
  open_fresh {attr group_fd state} h := by
    rw [perfEventOpen] at h ⊢
    split at h
    · split at h
      · exact absurd h (by simp)
      · simp only [*, dite_true, if_false]
        exact state.tabled.fresh
    · exact absurd h (by simp)
  open_leader {attr state fd} h hfd := by
    subst h
    rw [perfEventOpen, dif_pos (.inl rfl)] at hfd ⊢
    split at hfd
    · exact absurd hfd (by simp)
    · rename_i hleft
      rw [if_neg hleft]
      funext fd'
      dsimp only
      rw [Tabled.joined]
      split
      · rfl
      · split
        · subst fd'
          rw [state.tabled.alone]
          rfl
        · rfl
  open_member {attr group_fd state fd e} h hfd he _ := by
    subst h
    have hopen : (state.event group_fd).isSome := by rw [he]; rfl
    have hne : group_fd ≠ -1 := by
      rintro rfl
      rw [state.tabled.alone] at he
      cases he
    rw [perfEventOpen, dif_pos (.inr hopen)] at hfd ⊢
    split at hfd
    · exact absurd hfd (by simp)
    · rename_i hleft
      rw [if_neg hleft]
      funext fd'
      dsimp only
      rw [Tabled.joined, if_neg hne]
      split
      · rfl
      · split
        · subst fd'
          rw [he]
          rfl
        · rfl
  open_used {attr group_fd state} h := by
    rw [perfEventOpen, dif_pos h]
    split <;> rfl
  close_event _ := rfl
  close_used := rfl
  ioctl_event _ _ := rfl
  ioctl_used := rfl
  read_event := rfl
  read_used := rfl
  read_words {fd words state e} he _ _ hres i word hi hword := by
    simp only [read, he, Option.map_some, Option.getD_some] at hres ⊢
    rw [Vector.getElem?_ofFn, dif_pos hi, List.getD_eq_getElem?_getD]
    rw [List.length_cons, Nat.add_comm, hword]
    rfl
  println_event := rfl
  println_used := rfl

end PerfState

end BenchHashmaps
