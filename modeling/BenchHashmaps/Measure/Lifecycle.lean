import BenchHashmaps.Lib.Owned
import BenchHashmaps.Measure.FieldLaws
import BenchHashmaps.Measure.Perf

/-!
# The recorder's descriptors

The recorder opens up to eight events in three groups, and whichever of its
calls fail, a group has all its events or none. So the open events are those
of the process before, with the groups that are `ok` on top (`Owned`), and
every call keeps to the recorder's own.
-/

namespace BenchHashmaps

open Lib (Owned)
open PerfEventGroupBase (closed closeAll)

variable {World : Type} {EventCount : Nat} {kernel : PerfKernel World} {start world : World}
  {own : List (Int × PerfEvent)}

-- ---------------------------------------------------------------------------
-- Own events
-- ---------------------------------------------------------------------------

/-- Since `start`, the process opened `own` and closed whatever else it opened,
and made no call on a descriptor without an event. -/
structure Holds (kernel : PerfKernel World) (start : World) (own : List (Int × PerfEvent))
    (world : World) : Prop where
  owned : Owned (kernel.event start) own (kernel.event world)
  used : kernel.misused world = kernel.misused start

def SelfContained (own : List (Int × PerfEvent)) : Prop :=
  ∀ p ∈ own, p.2.leader ∈ own.map Prod.fst ∧ ∀ fd ∈ p.2.siblings, fd ∈ own.map Prod.fst

theorem SelfContained.nil : SelfContained [] := by simp [SelfContained]

theorem SelfContained.append (h : SelfContained own) (h' : SelfContained own') :
    SelfContained (own ++ own') := by
  intro p hp
  rw [List.map_append]
  rcases List.mem_append.mp hp with hp | hp
  · exact ⟨List.mem_append_left _ (h p hp).1, fun fd hfd =>
      List.mem_append_left _ ((h p hp).2 fd hfd)⟩
  · exact ⟨List.mem_append_right _ (h' p hp).1, fun fd hfd =>
      List.mem_append_right _ ((h' p hp).2 fd hfd)⟩

/-- Where a group stands: as it was opened, or after the last `ioctl`. -/
inductive Switch
  | opened
  | on
  | off
  deriving DecidableEq, Repr

def Switch.leader : Switch → Bool
  | on => true
  | opened | off => false

def Switch.members : Switch → Bool
  | opened | on => true
  | off => false

def groupEntries (switch : Switch) (leader : Int) (attr : PerfEventAttr)
    (members : List (Int × PerfEventAttr)) : List (Int × PerfEvent) :=
  (leader, ⟨attr, switch.leader, leader, members.map Prod.fst⟩) ::
    members.map fun m => (m.1, ⟨m.2, switch.members, leader, []⟩)

theorem keys_groupEntries (switch : Switch) (leader : Int) (attr : PerfEventAttr)
    (members : List (Int × PerfEventAttr)) :
    (groupEntries switch leader attr members).map Prod.fst = leader :: members.map Prod.fst := by
  rw [groupEntries, List.map_cons, List.map_map]
  rfl

theorem groupEntries_selfContained (switch : Switch) (leader : Int) (attr : PerfEventAttr)
    (members : List (Int × PerfEventAttr)) :
    SelfContained (groupEntries switch leader attr members) := by
  intro p hp
  rw [keys_groupEntries]
  rcases List.mem_cons.mp hp with rfl | hp
  · exact ⟨List.mem_cons_self, fun fd hfd => List.mem_cons_of_mem _ hfd⟩
  · obtain ⟨m, hm, rfl⟩ := List.mem_map.mp hp
    exact ⟨List.mem_cons_self, by simp⟩

theorem leader_notMem {base now : Int → Option PerfEvent}
    (h : Owned base (own ++ groupEntries switch leader attr members) now) :
    leader ∉ own.map Prod.fst ∧ leader ∉ members.map Prod.fst := by
  have hnodup := h.nodup
  rw [List.map_append, keys_groupEntries, List.nodup_middle, List.nodup_cons, List.mem_append,
    not_or] at hnodup
  exact hnodup.1

-- ---------------------------------------------------------------------------
-- Opening
-- ---------------------------------------------------------------------------

theorem openEvent_fst (attr : PerfEventAttr) (group_fd : Int) (name : String) (world : World) :
    (kernel.openEvent attr group_fd name world).1 =
      (kernel.perf_event_open attr group_fd world).1 := by
  rw [PerfKernel.openEvent]
  dsimp only
  split <;> rfl

theorem openEvent_event (attr : PerfEventAttr) (group_fd : Int) (name : String) (world : World) :
    kernel.event (kernel.openEvent attr group_fd name world).2 =
      kernel.event (kernel.perf_event_open attr group_fd world).2 := by
  rw [PerfKernel.openEvent]
  dsimp only
  split
  · exact kernel.println_event
  · rfl

theorem openEvent_used (attr : PerfEventAttr) (name : String)
    (h : group_fd = -1 ∨ (kernel.event world group_fd).isSome) :
    kernel.misused (kernel.openEvent attr group_fd name world).2 = kernel.misused world := by
  rw [PerfKernel.openEvent]
  dsimp only
  split
  · rw [kernel.println_used, kernel.open_used h]
  · exact kernel.open_used h

theorem Holds.leader_event
    (h : Holds kernel start (own ++ groupEntries switch leader attr members) world) :
    kernel.event world leader = some ⟨attr, switch.leader, leader, members.map Prod.fst⟩ :=
  h.owned.mine (leader, _) (List.mem_append_right _ List.mem_cons_self)

/-- The leader was not open at the start, and so no event of the start is in
its group. -/
theorem Holds.leader_fresh
    (h : Holds kernel start (own ++ groupEntries switch leader attr members) world) :
    kernel.event start leader = none :=
  h.owned.fresh (leader, _) (List.mem_append_right _ List.mem_cons_self)

theorem Holds.openLeader (h : Holds kernel start own world) (attr : PerfEventAttr)
    (hattr : attr.disabled = true) (name : String) :
    let r := kernel.openEvent attr (-1) name world
    (r.1 = -1 ∧ Holds kernel start own r.2) ∨
      (0 ≤ r.1 ∧ Holds kernel start (own ++ groupEntries .opened r.1 attr []) r.2) := by
  intro r
  have hused : kernel.misused r.2 = kernel.misused start :=
    (openEvent_used attr name (.inl rfl)).trans h.used
  have hfst : r.1 = (kernel.perf_event_open attr (-1) world).1 := openEvent_fst attr (-1) name world
  rcases kernel.open_result attr (-1) world with hbad | hok
  · have hevent : kernel.event r.2 = kernel.event world :=
      (openEvent_event attr (-1) name world).trans (kernel.open_fails hbad)
    exact .inl ⟨hfst.trans hbad, hevent ▸ h.owned, hused⟩
  · have hevent := (openEvent_event attr (-1) name world).trans (kernel.open_leader hfst.symm
      (hfst ▸ hok))
    refine .inr ⟨hfst ▸ hok, ?_, hused⟩
    rw [hevent, hattr]
    exact h.owned.acquire (hfst ▸ kernel.open_fresh hok) _

theorem map_entries {base now : Int → Option PerfEvent} {u : Int → PerfEvent → PerfEvent}
    (h : Owned base (own ++ groupEntries switch leader attr members) now)
    (hu : ∀ fd e, fd ≠ leader → u fd e = e) :
    (own ++ groupEntries switch leader attr members).map (fun p => (p.1, u p.1 p.2)) =
      own ++ (leader, u leader ⟨attr, switch.leader, leader, members.map Prod.fst⟩) ::
        members.map fun m => (m.1, ⟨m.2, switch.members, leader, []⟩) := by
  obtain ⟨hown, hmembers⟩ := leader_notMem h
  have hout : own.map (fun p => (p.1, u p.1 p.2)) = own.map id :=
    List.map_congr_left fun p hp => by
      rw [hu p.1 p.2 fun heq => hown (heq ▸ List.mem_map_of_mem hp)]
      rfl
  rw [List.map_append, hout, List.map_id, groupEntries, List.map_cons, List.map_map]
  congr 2
  exact List.map_congr_left fun m hm => by
    rw [Function.comp_apply, hu m.1 _ fun heq => hmembers (heq ▸ List.mem_map_of_mem hm)]

theorem Holds.openMember (tries : List (Int × PerfEventAttr))
    (h : Holds kernel start
      (own ++ groupEntries .opened leader attr' (tries.filter (·.1 ≠ -1))) world)
    (attr : PerfEventAttr) (hattr : attr.disabled = false) (name : String) :
    let r := kernel.openEvent attr leader name world
    (r.1 = -1 ∨ 0 ≤ r.1) ∧ Holds kernel start (own ++ groupEntries .opened leader attr'
      ((tries ++ [(r.1, attr)]).filter (·.1 ≠ -1))) r.2 := by
  intro r
  have hleader := h.leader_event
  have hused : kernel.misused r.2 = kernel.misused start :=
    (openEvent_used attr name (.inr (by rw [hleader]; rfl))).trans h.used
  have hfst : r.1 = (kernel.perf_event_open attr leader world).1 :=
    openEvent_fst attr leader name world
  rcases kernel.open_result attr leader world with hbad | hok
  · have hevent : kernel.event r.2 = kernel.event world :=
      (openEvent_event attr leader name world).trans (kernel.open_fails hbad)
    refine ⟨.inl (hfst.trans hbad), ?_, hused⟩
    rw [List.filter_append, List.filter_singleton, hfst, hbad]
    simpa [hevent] using h.owned
  · have hne : r.1 ≠ -1 := by omega
    have hfresh : kernel.event world r.1 = none := hfst ▸ kernel.open_fresh hok
    have hevent := (openEvent_event attr leader name world).trans
      (kernel.open_member hfst.symm (hfst ▸ hok) hleader rfl)
    -- the leader gets a sibling, and then there is a new event
    let u : Int → PerfEvent → PerfEvent := fun fd e =>
      if fd = leader then { e with siblings := e.siblings ++ [r.1] } else e
    have hupdate := h.owned.update u fun fd e he => if_neg fun heq => by
      rw [heq, h.leader_fresh] at he
      cases he
    have hother : ∀ fd e, fd ≠ leader → u fd e = e := fun fd e hfd => if_neg hfd
    rw [map_entries h.owned hother] at hupdate
    have hacquire := hupdate.acquire (i := r.1) (by rw [hfresh]; rfl)
      ⟨attr, !attr.disabled, leader, []⟩
    have htable : kernel.event r.2 = fun fd =>
        if fd = r.1 then some ⟨attr, !attr.disabled, leader, []⟩
        else (kernel.event world fd).map (u fd) := by
      rw [hevent]
      funext fd
      split
      · rfl
      · split
        case isTrue heq =>
          rw [heq, hleader, Option.map_some]
          exact congrArg some (if_pos rfl).symm
        case isFalse hfd =>
          have hid : u fd = id := funext fun e => if_neg hfd
          rw [hid, Option.map_id_apply]
    refine ⟨.inr (hfst ▸ hok), ?_, hused⟩
    rw [htable, List.filter_append, List.filter_singleton, groupEntries, List.map_append,
      List.map_append]
    simpa [u, hne, hattr, Switch.members] using hacquire

-- ---------------------------------------------------------------------------
-- Closing
-- ---------------------------------------------------------------------------

theorem detached_eq {e : PerfEvent} (hleader : e.leader ≠ fd) (hsiblings : fd ∉ e.siblings)
    (fd' : Int) : e.detached fd fd' = e := by
  rw [PerfEvent.detached, if_neg hleader, List.filter_eq_self.mpr]
  intro s hs
  exact decide_eq_true fun heq => hsiblings (heq ▸ hs)

theorem detached_start (hfd : kernel.event start fd = none) (he : kernel.event start fd' = some e) :
    e.detached fd fd' = e := by
  refine detached_eq (fun heq => ?_) (fun hmem => ?_) fd'
  · have hopen := kernel.leader_open he
    rw [heq, hfd] at hopen
    cases hopen
  · have hopen := kernel.siblings_open he fd hmem
    rw [hfd] at hopen
    cases hopen

theorem SelfContained.detached (h : SelfContained own) (hfd : fd ∉ own.map Prod.fst) :
    (own.map fun p => (p.1, p.2.detached fd p.1)) = own := by
  refine (List.map_congr_left fun p hp => ?_).trans (List.map_id own)
  have hleader : p.2.leader ≠ fd := fun heq => hfd (heq ▸ (h p hp).1)
  exact congrArg (Prod.mk p.1) (detached_eq hleader (fun hmem => hfd ((h p hp).2 fd hmem)) p.1)

theorem Holds.close {p : Int × PerfEvent} (h : Holds kernel start (own ++ p :: rest) world)
    (hown : SelfContained own) :
    Holds kernel start (own ++ rest.map fun q => (q.1, q.2.detached p.1 q.1))
      (kernel.close p.1 world) := by
  have hmem : p ∈ own ++ p :: rest := List.mem_append_right _ List.mem_cons_self
  have hopen : (kernel.event world p.1).isSome := by
    rw [h.owned.mine p hmem]
    rfl
  have hnotmem : p.1 ∉ own.map Prod.fst := by
    have hnodup := h.owned.nodup
    rw [List.map_append, List.map_cons, List.nodup_middle, List.nodup_cons, List.mem_append,
      not_or] at hnodup
    exact hnodup.1.1
  have hupdate := h.owned.update (fun fd e => e.detached p.1 fd) fun fd e he =>
    detached_start (h.owned.fresh p hmem) he
  rw [List.map_append, List.map_cons, hown.detached hnotmem] at hupdate
  refine ⟨?_, ?_⟩
  · rw [kernel.close_event hopen]
    exact hupdate.release
  · rw [kernel.close_used, if_pos hopen, Nat.add_zero, h.used]

theorem Holds.closeMembers (members : List (Int × PerfEventAttr)) (enabled : Bool)
    (h : Holds kernel start
      (own ++ members.map fun m => (m.1, ⟨m.2, enabled, m.1, []⟩)) world)
    (hown : SelfContained own) :
    Holds kernel start own
      ((members.map Prod.fst).foldl (fun world fd => kernel.close fd world) world) := by
  induction members generalizing world with
  | nil => rwa [List.map_nil, List.append_nil] at h
  | cons m members ih =>
    rw [List.map_cons, List.foldl_cons]
    rw [List.map_cons] at h
    refine ih ?_
    have hclose := h.close hown
    have hnodup := h.owned.nodup
    rw [List.map_append, List.map_cons, List.nodup_append, List.nodup_cons, List.map_map] at hnodup
    rw [List.map_map] at hclose
    refine (congrArg (fun rest => Holds kernel start (own ++ rest) _) ?_).mp hclose
    refine List.map_congr_left fun m' hm' => ?_
    have hne : m'.1 ≠ m.1 := fun heq =>
      hnodup.2.1.1 (heq ▸ List.mem_map_of_mem (f := Prod.fst ∘ fun m : Int × PerfEventAttr =>
        (m.1, (⟨m.2, enabled, m.1, []⟩ : PerfEvent))) hm')
    exact congrArg (Prod.mk m'.1) (detached_eq hne (by simp) m'.1)

theorem closeAll_eq (group : PerfEventGroupBase EventCount) (world : World) :
    (group.closeAll kernel world).2 =
      (group.fds.toList.filter (· ≠ -1)).foldl (fun world fd => kernel.close fd world) world := by
  rw [List.foldl_filter, closeAll]
  simp only [decide_eq_true_eq]

theorem Holds.closeAll {group : PerfEventGroupBase EventCount}
    (h : Holds kernel start (own ++ groupEntries switch leader attr members) world)
    (hown : SelfContained own)
    (hfds : group.fds.toList.filter (· ≠ -1) = leader :: members.map Prod.fst) :
    Holds kernel start own (group.closeAll kernel world).2 := by
  rw [closeAll_eq, hfds, List.foldl_cons]
  have hclose := Holds.close h hown
  refine Holds.closeMembers members switch.members ?_ hown
  rw [List.map_map] at hclose
  refine (congrArg (fun rest => Holds kernel start (own ++ rest) _) ?_).mp hclose
  exact List.map_congr_left fun m _ => congrArg (Prod.mk m.1) (if_pos rfl)

theorem closeAll_closed {group : PerfEventGroupBase EventCount}
    (h : ∀ fd ∈ group.fds.toList, fd = -1) (world : World) :
    (group.closeAll kernel world).2 = world := by
  rw [closeAll_eq, List.filter_eq_nil_iff.mpr fun fd hfd => by simp [h fd hfd]]
  rfl

-- ---------------------------------------------------------------------------
-- Groups
-- ---------------------------------------------------------------------------

def EventGroup.attrs : EventGroup → List PerfEventAttr
  | core =>
    [leaderAttr .PERF_TYPE_HARDWARE PERF_COUNT_HW_CPU_CYCLES,
     memberAttr .PERF_TYPE_HARDWARE PERF_COUNT_HW_BRANCH_INSTRUCTIONS,
     memberAttr .PERF_TYPE_HARDWARE PERF_COUNT_HW_BRANCH_MISSES,
     memberAttr .PERF_TYPE_HARDWARE PERF_COUNT_HW_INSTRUCTIONS]
  | l1d => cacheAttrs PERF_COUNT_HW_CACHE_L1D
  | llc => cacheAttrs PERF_COUNT_HW_CACHE_LL
where
  cacheAttrs (cache_id : UInt64) : List PerfEventAttr :=
    [leaderAttr .PERF_TYPE_HW_CACHE
      (cacheConfig cache_id PERF_COUNT_HW_CACHE_OP_READ PERF_COUNT_HW_CACHE_RESULT_ACCESS),
     memberAttr .PERF_TYPE_HW_CACHE
      (cacheConfig cache_id PERF_COUNT_HW_CACHE_OP_READ PERF_COUNT_HW_CACHE_RESULT_MISS)]

namespace PerfEventGroupBase

/-- The events of an open group, with `attrs` in the order of its `fds`. -/
def entries (group : PerfEventGroupBase EventCount) (attrs : List PerfEventAttr)
    (switch : Switch) : List (Int × PerfEvent) :=
  if group.ok then
    match group.fds.toList.zip attrs with
    | (leader, attr) :: members => groupEntries switch leader attr members
    | [] => []
  else []

structure Settled (group : PerfEventGroupBase EventCount) : Prop where
  opened : group.ok = true → ∀ fd ∈ group.fds.toList, 0 ≤ fd
  unopened : group.ok = false → ∀ fd ∈ group.fds.toList, fd = -1

theorem closed_settled (EventCount : Nat) : (closed EventCount).Settled where
  opened h := by cases h
  unopened _ fd hfd := by
    rw [closed, Vector.toList_replicate] at hfd
    exact List.eq_of_mem_replicate hfd

theorem entries_not_ok {group : PerfEventGroupBase EventCount} (h : group.ok = false)
    (attrs : List PerfEventAttr) (switch : Switch) : group.entries attrs switch = [] := by
  rw [entries, h, if_neg Bool.false_ne_true]

theorem entries_ok [NeZero EventCount] {group : PerfEventGroupBase EventCount}
    (attrs : List PerfEventAttr) (h : group.ok = true) (hlen : attrs.length = EventCount) :
    ∃ attr members, attrs = attr :: members.map Prod.snd ∧
      group.fds.toList = group.fds.get 0 :: members.map Prod.fst ∧ ∀ switch,
        group.entries attrs switch = groupEntries switch (group.fds.get 0) attr members := by
  have hfds : group.fds.toList.length = EventCount := Vector.length_toList
  have hpos : EventCount ≠ 0 := NeZero.ne EventCount
  obtain ⟨leader, fds, heq⟩ := List.exists_cons_of_length_pos
    (l := group.fds.toList) (by omega)
  obtain ⟨attr, rest, rfl⟩ := List.exists_cons_of_length_pos (l := attrs) (by omega)
  have hleader : group.fds.get 0 = leader := by
    have hget : group.fds.toList[0]? = some leader := by rw [heq]; rfl
    rw [Vector.getElem?_toList, Vector.getElem?_eq_some_iff] at hget
    obtain ⟨_, hget⟩ := hget
    exact hget
  rw [heq, List.length_cons] at hfds
  rw [List.length_cons] at hlen
  refine ⟨attr, fds.zip rest, ?_, ?_, fun switch => ?_⟩
  · rw [List.map_snd_zip (by omega)]
  · rw [hleader, heq, List.map_fst_zip (by omega)]
  · rw [entries, if_pos h, heq, hleader]
    rfl

end PerfEventGroupBase

open PerfEventGroupBase (Settled closed_settled entries_not_ok entries_ok)

theorem entries_selfContained (group : PerfEventGroupBase EventCount)
    (attrs : List PerfEventAttr) (switch : Switch) :
    SelfContained (group.entries attrs switch) := by
  rw [PerfEventGroupBase.entries]
  split
  case isTrue =>
    split
    · exact groupEntries_selfContained _ _ _ _
    · exact .nil
  case isFalse => exact .nil

theorem Holds.closeGroup [NeZero EventCount] {group : PerfEventGroupBase EventCount}
    (h : Holds kernel start (own ++ group.entries attrs switch) world)
    (hown : SelfContained own) (hgroup : group.Settled) (hlen : attrs.length = EventCount) :
    Holds kernel start own (group.closeAll kernel world).2 := by
  cases hok : group.ok with
  | false =>
    rw [closeAll_closed (hgroup.unopened hok)]
    rwa [entries_not_ok hok, List.append_nil] at h
  | true =>
    obtain ⟨attr, members, -, hfds, hentries⟩ := entries_ok _ hok hlen
    rw [hentries] at h
    refine h.closeAll hown ?_
    rw [← hfds, List.filter_eq_self]
    intro fd hfd
    have hle := hgroup.opened hok fd hfd
    exact decide_eq_true (by omega)

/-- A group whose leader is open, after its members were tried: it can be closed
as it is, and it is open when all of them are. -/
theorem Holds.settle {tries : List (Int × PerfEventAttr)} (fds : Vector Int EventCount)
    (h : Holds kernel start
      (own ++ groupEntries .opened leader attr (tries.filter (·.1 ≠ -1))) world)
    (hown : SelfContained own) (hleader : 0 ≤ leader)
    (hfds : fds.toList = leader :: tries.map Prod.fst) :
    Holds kernel start own (PerfEventGroupBase.closeAll kernel ⟨fds, false⟩ world).2 ∧
      ((∀ t ∈ tries, 0 ≤ t.1) → Settled ⟨fds, true⟩ ∧ Holds kernel start
        (own ++ PerfEventGroupBase.entries ⟨fds, true⟩ (attr :: tries.map Prod.snd) .opened)
        world) := by
  refine ⟨Holds.closeAll h hown ?_, fun hall => ⟨⟨fun _ fd hfd => ?_, nofun⟩, ?_⟩⟩
  · rw [hfds, List.filter_cons, if_pos (decide_eq_true (by omega)), List.filter_map]
    rfl
  · rw [hfds] at hfd
    rcases List.mem_cons.mp hfd with rfl | hfd
    · exact hleader
    · obtain ⟨t, ht, rfl⟩ := List.mem_map.mp hfd
      exact hall t ht
  · have hzip : (tries.map Prod.fst).zip (tries.map Prod.snd) = tries := by
      rw [List.zip_map']
      exact List.map_id tries
    rw [PerfEventGroupBase.entries, if_pos rfl, hfds, List.zip_cons_cons, hzip]
    rwa [List.filter_eq_self.mpr fun t ht => decide_eq_true (by have := hall t ht; omega)] at h

theorem Holds.openCore (h : Holds kernel start own world) (hown : SelfContained own) :
    (PerfEventGroup.openGroup kernel world).1.Settled ∧ Holds kernel start
      (own ++ (PerfEventGroup.openGroup kernel world).1.entries EventGroup.core.attrs .opened)
      (PerfEventGroup.openGroup kernel world).2 := by
  have hopened := h.openLeader (leaderAttr .PERF_TYPE_HARDWARE PERF_COUNT_HW_CPU_CYCLES) rfl
    "cpu-cycles"
  rw [PerfEventGroup.openGroup]
  dsimp only at hopened ⊢
  obtain ⟨hbad, hholds⟩ | ⟨hleader, hholds⟩ := hopened
  · rw [hbad, if_pos (by decide)]
    refine ⟨⟨nofun, fun _ fd hfd => by simpa using hfd⟩, ?_⟩
    rwa [entries_not_ok rfl, List.append_nil]
  rw [if_neg (not_lt.mpr hleader)]
  obtain ⟨-, h₁⟩ := hholds.openMember []
    (memberAttr .PERF_TYPE_HARDWARE PERF_COUNT_HW_BRANCH_INSTRUCTIONS) rfl "branch-instructions"
  obtain ⟨-, h₂⟩ := h₁.openMember _
    (memberAttr .PERF_TYPE_HARDWARE PERF_COUNT_HW_BRANCH_MISSES) rfl "branch-misses"
  obtain ⟨-, h₃⟩ := h₂.openMember _
    (memberAttr .PERF_TYPE_HARDWARE PERF_COUNT_HW_INSTRUCTIONS) rfl "instructions"
  obtain ⟨hclose, hopen⟩ := h₃.settle #v[_, _, _, _] hown hleader rfl
  split
  case isTrue =>
    refine ⟨closed_settled _, ?_⟩
    rwa [entries_not_ok (by rfl), List.append_nil]
  case isFalse hall =>
    rw [not_or, not_or, not_lt, not_lt, not_lt] at hall
    refine hopen ?_
    simpa using hall

theorem Holds.openCache (h : Holds kernel start own world) (hown : SelfContained own)
    (cache_id : UInt64) (access miss : String) :
    (openCacheGroup kernel cache_id access miss world).1.Settled ∧ Holds kernel start
      (own ++ (openCacheGroup kernel cache_id access miss world).1.entries
        (EventGroup.attrs.cacheAttrs cache_id) .opened)
      (openCacheGroup kernel cache_id access miss world).2 := by
  have hopened := h.openLeader (leaderAttr .PERF_TYPE_HW_CACHE
    (cacheConfig cache_id PERF_COUNT_HW_CACHE_OP_READ PERF_COUNT_HW_CACHE_RESULT_ACCESS)) rfl access
  rw [openCacheGroup]
  dsimp only at hopened ⊢
  obtain ⟨hbad, hholds⟩ | ⟨hleader, hholds⟩ := hopened
  · rw [hbad, if_pos (by decide)]
    refine ⟨closed_settled _, ?_⟩
    rw [entries_not_ok (by rfl), List.append_nil, closeAll_closed (by simp)]
    exact hholds
  rw [if_neg (not_lt.mpr hleader)]
  obtain ⟨-, h₁⟩ := hholds.openMember [] (memberAttr .PERF_TYPE_HW_CACHE
    (cacheConfig cache_id PERF_COUNT_HW_CACHE_OP_READ PERF_COUNT_HW_CACHE_RESULT_MISS)) rfl miss
  obtain ⟨hclose, hopen⟩ := h₁.settle #v[_, _] hown hleader rfl
  split
  case isTrue =>
    refine ⟨closed_settled _, ?_⟩
    rwa [entries_not_ok (by rfl), List.append_nil]
  case isFalse hall =>
    refine hopen ?_
    simpa using hall

theorem Holds.println (h : Holds kernel start own world) (text : String) :
    Holds kernel start own (kernel.println text world) :=
  ⟨by rw [kernel.println_event]; exact h.owned, kernel.println_used.trans h.used⟩

theorem Holds.newCache {opened : PerfEventGroupBase 2 × World}
    (h : opened.1.Settled ∧ Holds kernel start (own ++ opened.1.entries attrs .opened) opened.2)
    (text : String) :
    (reportUnavailable kernel text opened).1.Settled ∧ Holds kernel start
      (own ++ (reportUnavailable kernel text opened).1.entries attrs .opened)
      (reportUnavailable kernel text opened).2 := by
  rw [reportUnavailable]
  split
  · exact h
  · exact ⟨h.1, h.2.println text⟩

-- ---------------------------------------------------------------------------
-- Switching
-- ---------------------------------------------------------------------------

def IoctlRequest.switch : IoctlRequest → Switch
  | PERF_EVENT_IOC_ENABLE => .on
  | PERF_EVENT_IOC_DISABLE => .off

theorem SelfContained.switched (h : SelfContained own) (hfd : fd ∉ own.map Prod.fst)
    (request : IoctlRequest) :
    (own.map fun p => (p.1, p.2.switched fd request)) = own := by
  refine (List.map_congr_left fun p hp => ?_).trans (List.map_id own)
  have hleader : p.2.leader ≠ fd := fun heq => hfd (heq ▸ (h p hp).1)
  exact congrArg (Prod.mk p.1) (if_neg hleader)

theorem switched_start (hfd : kernel.event start fd = none)
    (he : kernel.event start fd' = some e) (request : IoctlRequest) :
    e.switched fd request = e := by
  refine if_neg fun heq => ?_
  have hopen := kernel.leader_open he
  rw [heq, hfd] at hopen
  cases hopen

theorem groupEntries_switched (switch : Switch) (leader : Int) (attr : PerfEventAttr)
    (members : List (Int × PerfEventAttr)) (request : IoctlRequest) :
    ((groupEntries switch leader attr members).map fun p =>
      (p.1, p.2.switched leader request)) = groupEntries request.switch leader attr members := by
  have hleader : request.enables = request.switch.leader := by cases request <;> rfl
  have hmembers : request.enables = request.switch.members := by cases request <;> rfl
  rw [groupEntries, groupEntries, List.map_cons, List.map_map]
  congr 1
  · rw [PerfEvent.switched, if_pos rfl, hleader]
  · refine List.map_congr_left fun m _ => ?_
    rw [Function.comp_apply, PerfEvent.switched, if_pos rfl, hmembers]

theorem Holds.ioctl [NeZero EventCount] {group : PerfEventGroupBase EventCount}
    (h : Holds kernel start (own ++ group.entries attrs switch ++ rest) world)
    (hown : SelfContained own) (hrest : SelfContained rest) (hlen : attrs.length = EventCount)
    (request : IoctlRequest) :
    Holds kernel start (own ++ group.entries attrs request.switch ++ rest)
      (if group.ok then kernel.ioctl (group.fds.get 0) request world else world) := by
  cases hok : group.ok with
  | false =>
    rw [if_neg Bool.false_ne_true, entries_not_ok hok]
    rwa [entries_not_ok hok] at h
  | true =>
    obtain ⟨attr, members, -, -, hentries⟩ := entries_ok _ hok hlen
    generalize group.fds.get 0 = leader at hentries ⊢
    rw [if_pos rfl, hentries]
    rw [hentries] at h
    have hnodup := h.owned.nodup
    rw [List.map_append, List.map_append, keys_groupEntries, List.nodup_append,
      List.nodup_middle, List.nodup_cons, List.mem_append, not_or] at hnodup
    obtain ⟨⟨⟨hout, -⟩, -⟩, -, hne⟩ := hnodup
    have hout' : leader ∉ rest.map Prod.fst := fun hmem =>
      hne leader (List.mem_append_right _ List.mem_cons_self) leader hmem rfl
    have hmem : (leader, ⟨attr, switch.leader, leader, members.map Prod.fst⟩) ∈
        own ++ groupEntries switch leader attr members ++ rest :=
      List.mem_append_left _ (List.mem_append_right _ List.mem_cons_self)
    have hevent := h.owned.mine _ hmem
    have hupdate := h.owned.update (fun _ e => e.switched leader request) fun fd e he =>
      switched_start (h.owned.fresh _ hmem) he request
    rw [List.map_append, List.map_append, groupEntries_switched, hown.switched hout,
      hrest.switched hout'] at hupdate
    refine ⟨?_, ?_⟩
    · rw [kernel.ioctl_event hevent rfl]
      exact hupdate
    · rw [kernel.ioctl_used, hevent, Option.isSome_some, if_pos rfl, Nat.add_zero, h.used]

-- ---------------------------------------------------------------------------
-- The recorder
-- ---------------------------------------------------------------------------

namespace X86Recorder

def entries (recorder : X86Recorder) (switch : EventGroup → Switch) : List (Int × PerfEvent) :=
  recorder.core.entries EventGroup.core.attrs (switch .core) ++
    recorder.l1d.entries EventGroup.l1d.attrs (switch .l1d) ++
    recorder.llc.entries EventGroup.llc.attrs (switch .llc)

structure Settled (recorder : X86Recorder) : Prop where
  core : recorder.core.Settled
  l1d : recorder.l1d.Settled
  llc : recorder.llc.Settled

theorem new_holds (kernel : PerfKernel World) (start : World) :
    (new kernel start).1.Settled ∧
      Holds kernel start ((new kernel start).1.entries fun _ => .opened) (new kernel start).2 := by
  have h : Holds kernel start [] start := ⟨Owned.nil _, rfl⟩
  obtain ⟨hcore, h₁⟩ := h.openCore .nil
  have hown₁ := SelfContained.append .nil (entries_selfContained
    (PerfEventGroup.openGroup kernel start).1 EventGroup.core.attrs .opened)
  obtain ⟨hl1d, h₂⟩ := Holds.newCache (h₁.openCache hown₁ PERF_COUNT_HW_CACHE_L1D
    "l1d-read-access" "l1d-read-miss") "perf: L1D events unavailable"
  obtain ⟨hllc, h₃⟩ := Holds.newCache (h₂.openCache (hown₁.append (entries_selfContained _ _ _))
    PERF_COUNT_HW_CACHE_LL "llc-read-access" "llc-read-miss") "perf: LLC events unavailable"
  exact ⟨⟨hcore, hl1d, hllc⟩, h₃⟩

theorem destroy_holds {recorder : X86Recorder}
    (h : Holds kernel start (recorder.entries switch) world) (hs : recorder.Settled) :
    Holds kernel start [] (recorder.destroy kernel world) := by
  have hcore := entries_selfContained recorder.core EventGroup.core.attrs (switch .core)
  have hl1d := entries_selfContained recorder.l1d EventGroup.l1d.attrs (switch .l1d)
  have h₁ := Holds.closeGroup h (hcore.append hl1d) hs.llc rfl
  have h₂ := h₁.closeGroup hcore hs.l1d rfl
  have h₃ : Holds kernel start ([] ++ recorder.core.entries EventGroup.core.attrs (switch .core))
      _ := h₂
  exact h₃.closeGroup .nil hs.core rfl

theorem switch_core {recorder : X86Recorder}
    (h : Holds kernel start (recorder.entries switch) world) (request : IoctlRequest) :
    Holds kernel start (recorder.entries (Function.update switch .core request.switch))
      (if recorder.core.ok then kernel.ioctl (recorder.core.fds.get 0) request world
        else world) := by
  rw [entries, List.append_assoc, ← List.nil_append (_ ++ _), ← List.append_assoc] at h
  have hioctl := h.ioctl .nil
    ((entries_selfContained _ _ _).append (entries_selfContained _ _ _)) rfl request
  rw [List.nil_append, ← List.append_assoc] at hioctl
  exact hioctl

theorem switch_l1d {recorder : X86Recorder}
    (h : Holds kernel start (recorder.entries switch) world) (request : IoctlRequest) :
    Holds kernel start (recorder.entries (Function.update switch .l1d request.switch))
      (if recorder.l1d.ok then kernel.ioctl (recorder.l1d.fds.get 0) request world else world) :=
  Holds.ioctl h (entries_selfContained _ _ _) (entries_selfContained _ _ _) rfl request

theorem switch_llc {recorder : X86Recorder}
    (h : Holds kernel start (recorder.entries switch) world) (request : IoctlRequest) :
    Holds kernel start (recorder.entries (Function.update switch .llc request.switch))
      (if recorder.llc.ok then kernel.ioctl (recorder.llc.fds.get 0) request world else world) := by
  rw [entries, ← List.append_nil (_ ++ _)] at h
  have hioctl := h.ioctl
    ((entries_selfContained _ _ _).append (entries_selfContained _ _ _)) .nil rfl request
  rw [List.append_nil] at hioctl
  exact hioctl

theorem disableAll_holds {recorder : X86Recorder}
    (h : Holds kernel start (recorder.entries switch) world) :
    Holds kernel start (recorder.entries fun _ => .off)
      (recorder.disableAll kernel.toKernel world) := by
  have hoff := switch_llc (switch_l1d (switch_core h .PERF_EVENT_IOC_DISABLE)
    .PERF_EVENT_IOC_DISABLE) .PERF_EVENT_IOC_DISABLE
  have hswitch : Function.update (Function.update (Function.update switch .core .off) .l1d .off)
      .llc .off = fun _ => .off := by
    funext g
    cases g <;> rfl
  rw [← hswitch]
  exact hoff

end X86Recorder

def PerfCounterSet.groups : PerfCounterSet → List EventGroup
  | core => [.core]
  | cache => [.l1d, .llc]

/-- The groups on after a call: those of the set that was enabled, and none
after `disable_all`. -/
def RecorderCall.switch (switch : EventGroup → Switch) : RecorderCall → EventGroup → Switch
  | .enable set => fun group => if group ∈ set.groups then .on else .off
  | .disable_all => fun _ => .off
  | .get_counters _ => switch

namespace X86Recorder

theorem enable_holds {recorder : X86Recorder}
    (h : Holds kernel start (recorder.entries switch) world) (set : PerfCounterSet) :
    Holds kernel start (recorder.entries (RecorderCall.switch switch (.enable set)))
      (recorder.enable kernel.toKernel set world) := by
  have hoff := disableAll_holds h
  rw [enable]
  cases set with
  | core =>
    have hon := switch_core hoff .PERF_EVENT_IOC_ENABLE
    have hswitch : Function.update (fun _ => .off) .core .on =
        RecorderCall.switch switch (.enable .core) := by
      funext g
      cases g <;> rfl
    rw [← hswitch]
    exact hon
  | cache =>
    have hon := switch_llc (switch_l1d hoff .PERF_EVENT_IOC_ENABLE) .PERF_EVENT_IOC_ENABLE
    have hswitch : Function.update (Function.update (fun _ => .off) .l1d .on) .llc .on =
        RecorderCall.switch switch (.enable .cache) := by
      funext g
      cases g <;> rfl
    rw [← hswitch]
    exact hon

end X86Recorder

theorem readWords_world [NeZero EventCount] (group : PerfEventGroupBase EventCount)
    (world : World) :
    (group.readWords kernel.toKernel world).2 =
      if group.ok then (kernel.read (group.fds.get 0) (3 + EventCount) world).2.2 else world := by
  rw [PerfEventGroupBase.readWords]
  split
  · dsimp only
    split <;> rfl
  · rfl

theorem readWords_event [NeZero EventCount] (group : PerfEventGroupBase EventCount)
    (world : World) :
    kernel.event (group.readWords kernel.toKernel world).2 = kernel.event world := by
  rw [readWords_world]
  split
  · exact kernel.read_event
  · rfl

theorem Holds.readWords [NeZero EventCount] (h : Holds kernel start own world)
    (group : PerfEventGroupBase EventCount) (attrs : List PerfEventAttr) (switch : Switch)
    (hsub : ∀ p ∈ group.entries attrs switch, p ∈ own) (hlen : attrs.length = EventCount) :
    Holds kernel start own (group.readWords kernel.toKernel world).2 := by
  refine ⟨?_, ?_⟩
  · rw [readWords_event]
    exact h.owned
  · rw [readWords_world]
    split
    case isFalse => exact h.used
    case isTrue hok =>
      obtain ⟨attr, members, -, -, hentries⟩ := entries_ok _ hok hlen
      have hevent := h.owned.mine (group.fds.get 0, _) (hsub _ (by
        rw [hentries switch]
        exact List.mem_cons_self))
      rw [kernel.read_used, hevent, Option.isSome_some, if_pos rfl, Nat.add_zero, h.used]

namespace X86Recorder

theorem getCounters_event (recorder : X86Recorder) (set : PerfCounterSet) (world : World) :
    kernel.event (recorder.getCounters kernel.toKernel set world).2 = kernel.event world := by
  rw [getCounters]
  cases set with
  | core =>
    rw [if_pos rfl, PerfEventGroup.read_eq]
    exact readWords_event _ _
  | cache =>
    simp only [L1dEventGroup.read, LlcEventGroup.read, readCache_eq, reduceCtorEq, if_false]
    rw [readWords_event, readWords_event]

theorem getCounters_holds {recorder : X86Recorder}
    (h : Holds kernel start (recorder.entries switch) world) (set : PerfCounterSet) :
    Holds kernel start (recorder.entries switch)
      (recorder.getCounters kernel.toKernel set world).2 := by
  have hsub : ∀ p, (p ∈ recorder.core.entries EventGroup.core.attrs (switch .core) ∨
      p ∈ recorder.l1d.entries EventGroup.l1d.attrs (switch .l1d)) ∨
      p ∈ recorder.llc.entries EventGroup.llc.attrs (switch .llc) →
        p ∈ recorder.entries switch := fun p hp => by
    rwa [entries, List.mem_append, List.mem_append]
  rw [getCounters]
  cases set with
  | core =>
    rw [if_pos rfl, PerfEventGroup.read_eq]
    exact h.readWords _ _ _ (fun p hp => hsub p (.inl (.inl hp))) rfl
  | cache =>
    simp only [L1dEventGroup.read, LlcEventGroup.read, readCache_eq, reduceCtorEq, if_false]
    have hl1d := h.readWords _ _ _ (fun p hp => hsub p (.inl (.inr hp))) rfl
    exact hl1d.readWords _ _ _ (fun p hp => hsub p (.inr hp)) rfl

end X86Recorder

theorem RecorderCall.exec_holds {recorder : X86Recorder} {switch : EventGroup → Switch}
    (h : Holds kernel start (recorder.entries switch) world) (call : RecorderCall) :
    Holds kernel start (recorder.entries (call.switch switch))
      (call.exec kernel.toKernel recorder world) := by
  cases call with
  | enable set => exact X86Recorder.enable_holds h set
  | disable_all => exact X86Recorder.disableAll_holds h
  | get_counters set => exact X86Recorder.getCounters_holds h set

end BenchHashmaps
