import BenchHashmaps.Measure.Lifecycle

/-!
# What the recorder counts

Over any run of calls, the recorder's events that count are those of the set
enabled last, and what `get_counters` reads for a field is the count of the
one event the field is named after. So a batch is measured by its own set, and
the destructor leaves the process with the events it had.
-/

namespace BenchHashmaps

open Lib (Owned)
open PerfCounters (Field)
open PerfEventGroupBase (entries_not_ok entries_ok)

variable {World : Type} {EventCount : Nat} {kernel : PerfKernel World} {start world : World}
  {recorder : X86Recorder}

-- ---------------------------------------------------------------------------
-- Runs
-- ---------------------------------------------------------------------------

/-- Calls through `RECORDER`, and in between whatever leaves the events as they
are: the lookups that are measured, and time. -/
inductive RecorderRun (kernel : PerfKernel World) (recorder : X86Recorder) :
    World → List RecorderCall → World → Prop
  | nil : RecorderRun kernel recorder mid [] mid
  | call (call : RecorderCall) : RecorderRun kernel recorder mid calls now →
    RecorderRun kernel recorder mid (calls ++ [call]) (call.exec kernel.toKernel recorder now)
  | work : RecorderRun kernel recorder mid calls now →
    kernel.event later = kernel.event now → kernel.misused later = kernel.misused now →
    RecorderRun kernel recorder mid calls later

/-- The set enabled last and not disabled since. -/
def enabledSet : List RecorderCall → Option PerfCounterSet :=
  List.foldl (fun set call => match call with
    | .enable set' => some set'
    | .disable_all => none
    | .get_counters _ => set) none

def switchAfter : List RecorderCall → EventGroup → Switch :=
  List.foldl (fun switch call => call.switch switch) fun _ => .opened

theorem switchAfter_on (calls : List RecorderCall) (group : EventGroup) :
    switchAfter calls group = .on ↔ ∃ set, enabledSet calls = some set ∧ group ∈ set.groups := by
  induction calls using List.reverseRecOn with
  | nil => simp [switchAfter, enabledSet]
  | append_singleton calls call ih =>
    rw [switchAfter, enabledSet, List.foldl_append, List.foldl_append]
    cases call with
    | enable set =>
      by_cases hmem : group ∈ set.groups <;> simp [RecorderCall.switch, hmem]
    | disable_all => simp [RecorderCall.switch]
    | get_counters set => exact ih

theorem RecorderRun.holds
    (hrun : RecorderRun kernel recorder mid calls world)
    (h : Holds kernel start (recorder.entries fun _ => .opened) mid) :
    Holds kernel start (recorder.entries (switchAfter calls)) world := by
  induction hrun with
  | nil => exact h
  | call call _ ih =>
    rw [switchAfter, List.foldl_append]
    exact call.exec_holds ih
  | work _ hevent hused ih => exact ⟨hevent ▸ ih.owned, hused.trans ih.used⟩

-- ---------------------------------------------------------------------------
-- Own events
-- ---------------------------------------------------------------------------

namespace X86Recorder

def ok (recorder : X86Recorder) : EventGroup → Bool
  | .core => recorder.core.ok
  | .l1d => recorder.l1d.ok
  | .llc => recorder.llc.ok

def groupOf (recorder : X86Recorder) (switch : Switch) :
    EventGroup → List (Int × PerfEvent)
  | .core => recorder.core.entries EventGroup.core.attrs switch
  | .l1d => recorder.l1d.entries EventGroup.l1d.attrs switch
  | .llc => recorder.llc.entries EventGroup.llc.attrs switch

theorem mem_entries {switch : EventGroup → Switch} :
    p ∈ recorder.entries switch ↔ ∃ group, p ∈ recorder.groupOf (switch group) group := by
  rw [entries, List.mem_append, List.mem_append]
  constructor
  · rintro ((h | h) | h)
    · exact ⟨.core, h⟩
    · exact ⟨.l1d, h⟩
    · exact ⟨.llc, h⟩
  · rintro ⟨group, h⟩
    cases group with
    | core => exact .inl (.inl h)
    | l1d => exact .inl (.inr h)
    | llc => exact .inr h

theorem groupOf_ok {group : EventGroup} (h : recorder.ok group = true) :
    ∃ leader attr, ∃ members : List (Int × PerfEventAttr),
      group.attrs = attr :: members.map Prod.snd ∧
        ∀ switch, recorder.groupOf switch group = groupEntries switch leader attr members := by
  cases group with
  | core =>
    obtain ⟨attr, members, hattrs, -, hentries⟩ :=
      entries_ok EventGroup.core.attrs h rfl
    exact ⟨_, attr, members, hattrs, hentries⟩
  | l1d =>
    obtain ⟨attr, members, hattrs, -, hentries⟩ :=
      entries_ok EventGroup.l1d.attrs h rfl
    exact ⟨_, attr, members, hattrs, hentries⟩
  | llc =>
    obtain ⟨attr, members, hattrs, -, hentries⟩ :=
      entries_ok EventGroup.llc.attrs h rfl
    exact ⟨_, attr, members, hattrs, hentries⟩

theorem groupOf_not_ok {group : EventGroup} (h : recorder.ok group = false) (switch : Switch) :
    recorder.groupOf switch group = [] := by
  cases group <;> exact entries_not_ok h _ _

end X86Recorder

theorem attrs_disjoint {group group' : EventGroup} {attr : PerfEventAttr}
    (h : attr ∈ group.attrs) (h' : attr ∈ group'.attrs) : group = group' := by
  have hall : ∀ attr ∈ group.attrs, attr ∉ group'.attrs ∨ group = group' := by
    cases group <;> cases group' <;> decide +kernel
  exact (hall attr h).resolve_left (not_not_intro h')

theorem mem_groupEntries (h : (fd, e) ∈ groupEntries switch leader attr members) :
    e.leader = leader ∧ e.attr ∈ attr :: members.map Prod.snd ∧
      (e.enabled = switch.leader ∨ e.enabled = switch.members) := by
  rcases List.mem_cons.mp h with h | h
  · cases h
    exact ⟨rfl, List.mem_cons_self, .inl rfl⟩
  · obtain ⟨m, hm, heq⟩ := List.mem_map.mp h
    cases heq
    exact ⟨rfl, List.mem_cons_of_mem _ (List.mem_map_of_mem hm), .inr rfl⟩

theorem Holds.counting_iff {switch : EventGroup → Switch}
    (h : Holds kernel start (recorder.entries switch) world)
    (hfd : kernel.event start fd = none) (he : kernel.event world fd = some e) :
    ∃ group, e.attr ∈ group.attrs ∧ recorder.ok group = true ∧
      (kernel.Counting world fd ↔ switch group = .on) := by
  have hmem := h.owned.mem_own hfd he
  obtain ⟨group, hgroup⟩ := X86Recorder.mem_entries.mp hmem
  cases hok : recorder.ok group with
  | false =>
    rw [X86Recorder.groupOf_not_ok hok] at hgroup
    cases hgroup
  | true =>
    obtain ⟨leader, attr, members, hattrs, hentries⟩ := X86Recorder.groupOf_ok hok
    rw [hentries] at hgroup
    obtain ⟨hleader, hattr, henabled⟩ := mem_groupEntries hgroup
    have hevent := h.owned.mine (leader, _) (X86Recorder.mem_entries.mpr
      ⟨group, by rw [hentries]; exact List.mem_cons_self⟩)
    refine ⟨group, hattrs ▸ hattr, hok, ?_⟩
    constructor
    · rintro ⟨e', le, he', hle, -, hon⟩
      cases he.symm.trans he'
      rw [hleader] at hle
      cases hevent.symm.trans hle
      generalize switch group = s at hon
      cases s <;> first | rfl | cases hon
    · intro hon
      rw [hon] at henabled hevent
      exact ⟨e, _, he, hleader ▸ hevent, henabled.elim id id, rfl⟩

theorem Holds.open_iff {switch : EventGroup → Switch}
    (h : Holds kernel start (recorder.entries switch) world) {group : EventGroup}
    (hattr : attr ∈ group.attrs) :
    (∃ fd e, kernel.event start fd = none ∧ kernel.event world fd = some e ∧ e.attr = attr) ↔
      recorder.ok group = true := by
  constructor
  · rintro ⟨fd, e, hfd, he, rfl⟩
    obtain ⟨group', hattr', hok, -⟩ := h.counting_iff hfd he
    rwa [attrs_disjoint hattr hattr']
  · intro hok
    obtain ⟨leader, attr', members, hattrs, hentries⟩ := X86Recorder.groupOf_ok hok
    have hown : ∀ p ∈ groupEntries (switch group) leader attr' members,
        kernel.event start p.1 = none ∧ kernel.event world p.1 = some p.2 := fun p hp =>
      have hmem := X86Recorder.mem_entries.mpr ⟨group, (hentries (switch group)).symm ▸ hp⟩
      ⟨h.owned.fresh p hmem, h.owned.mine p hmem⟩
    rw [hattrs] at hattr
    rcases List.mem_cons.mp hattr with rfl | hattr
    · obtain ⟨hfresh, hmine⟩ := hown _ List.mem_cons_self
      exact ⟨_, _, hfresh, hmine, rfl⟩
    · obtain ⟨m, hm, rfl⟩ := List.mem_map.mp hattr
      obtain ⟨hfresh, hmine⟩ := hown _ (List.mem_cons_of_mem _ (List.mem_map_of_mem hm))
      exact ⟨_, _, hfresh, hmine, rfl⟩

-- ---------------------------------------------------------------------------
-- Fields
-- ---------------------------------------------------------------------------

/-- The attributes of the event a field is named after; the times of a group are
those of its leader. -/
def PerfCounters.Field.attr : Field → PerfEventAttr
  | .cycles | .core_time_enabled | .core_time_running =>
    leaderAttr .PERF_TYPE_HARDWARE PERF_COUNT_HW_CPU_CYCLES
  | .branches => memberAttr .PERF_TYPE_HARDWARE PERF_COUNT_HW_BRANCH_INSTRUCTIONS
  | .missed_branches => memberAttr .PERF_TYPE_HARDWARE PERF_COUNT_HW_BRANCH_MISSES
  | .instructions => memberAttr .PERF_TYPE_HARDWARE PERF_COUNT_HW_INSTRUCTIONS
  | .l1d_accesses | .l1d_time_enabled | .l1d_time_running =>
    leaderAttr .PERF_TYPE_HW_CACHE (cacheConfig PERF_COUNT_HW_CACHE_L1D
      PERF_COUNT_HW_CACHE_OP_READ PERF_COUNT_HW_CACHE_RESULT_ACCESS)
  | .l1d_misses =>
    memberAttr .PERF_TYPE_HW_CACHE (cacheConfig PERF_COUNT_HW_CACHE_L1D
      PERF_COUNT_HW_CACHE_OP_READ PERF_COUNT_HW_CACHE_RESULT_MISS)
  | .llc_accesses | .llc_time_enabled | .llc_time_running =>
    leaderAttr .PERF_TYPE_HW_CACHE (cacheConfig PERF_COUNT_HW_CACHE_LL
      PERF_COUNT_HW_CACHE_OP_READ PERF_COUNT_HW_CACHE_RESULT_ACCESS)
  | .llc_misses =>
    memberAttr .PERF_TYPE_HW_CACHE (cacheConfig PERF_COUNT_HW_CACHE_LL
      PERF_COUNT_HW_CACHE_OP_READ PERF_COUNT_HW_CACHE_RESULT_MISS)

def PerfCounters.Field.amount (kernel : PerfKernel World) : Field → World → Int → UInt64
  | .core_time_enabled | .l1d_time_enabled | .llc_time_enabled => kernel.time_enabled
  | .core_time_running | .l1d_time_running | .llc_time_running => kernel.time_running
  | .cycles | .branches | .missed_branches | .instructions | .l1d_accesses | .l1d_misses
  | .llc_accesses | .llc_misses => kernel.count

def wordAmount (kernel : PerfKernel World) (i : Nat) : World → Int → UInt64 :=
  if i = 1 then kernel.time_enabled else if i = 2 then kernel.time_running else kernel.count

theorem wordAmount_word (field : Field) : wordAmount kernel field.word = field.amount kernel := by
  cases field <;> rfl

theorem attrs_word (field : Field) : field.group.attrs[field.word - 3]? = some field.attr := by
  cases field <;> rfl

theorem one_le_word (field : Field) : 1 ≤ field.word := by
  cases field <;> decide

theorem Holds.word [NeZero EventCount] {group : PerfEventGroupBase EventCount}
    (h : Holds kernel start own world) (switch : Switch)
    (hsub : ∀ p ∈ group.entries (attr :: attrs) switch, p ∈ own)
    (hlen : (attr :: attrs).length = EventCount)
    (hformat : attr.read_format = PERF_FORMAT_GROUP ||| PERF_FORMAT_TOTAL_TIME_ENABLED |||
      PERF_FORMAT_TOTAL_TIME_RUNNING)
    (hread : group.word kernel.toKernel world i = some value) (hi : 1 ≤ i) :
    ∃ p ∈ own, (attr :: attrs)[i - 3]? = some p.2.attr ∧ value = wordAmount kernel i world p.1 := by
  rw [PerfEventGroupBase.word, PerfEventGroupBase.readWords] at hread
  split at hread
  case isFalse => cases hread
  case isTrue hok =>
    obtain ⟨attr', members, hattrs, -, hentries⟩ := entries_ok _ hok hlen
    obtain ⟨rfl, rfl⟩ := List.cons.inj hattrs
    rw [hentries] at hsub
    generalize group.fds.get 0 = leader at hread hsub
    have hevent := h.owned.mine _ (hsub _ List.mem_cons_self)
    dsimp only at hread
    split at hread
    case isTrue => cases hread
    case isFalse hlong =>
      rw [not_or, not_lt] at hlong
      rw [Option.bind_some] at hread
      have hlt : i < 3 + EventCount := (Vector.getElem?_eq_some_iff.mp hread).1
      have hfull : ((3 + EventCount : Nat) : Int) * 8 ≤
          (kernel.read leader (3 + EventCount) world).1 := by
        rw [Nat.cast_add]
        exact hlong.1
      have hwords := kernel.read_words hevent rfl hformat hfull i
      rw [List.length_cons, List.length_map] at hlen
      -- The leader's own words come first, then one for each member.
      rcases Nat.lt_or_ge i 4 with hsmall | hlarge
      · have hword := hwords (wordAmount kernel i world leader) hlt (by
          obtain rfl | rfl | rfl : i = 1 ∨ i = 2 ∨ i = 3 := by omega
          all_goals rfl)
        rw [hread] at hword
        refine ⟨_, hsub _ List.mem_cons_self, ?_, Option.some.inj hword⟩
        rw [show i - 3 = 0 by omega]
        rfl
      · obtain ⟨k, rfl⟩ := Nat.exists_eq_add_of_le' hlarge
        have hk : k < members.length := by omega
        have hword := hwords (kernel.count world members[k].1) hlt (by simp [hk])
        rw [hread] at hword
        refine ⟨_, hsub _ (List.mem_cons_of_mem _ (List.mem_map_of_mem (List.getElem_mem hk))), ?_,
          Option.some.inj hword⟩
        simp [hk]

namespace X86Recorder

/-- The world a group is read in: the LLC group comes after the L1D group. -/
def readIn (kernel : Kernel World) (recorder : X86Recorder) (world : World) : EventGroup → World
  | .core | .l1d => world
  | .llc => (recorder.l1d.readWords kernel world).2

theorem reading_amount {switch : EventGroup → Switch} {counter_set : PerfCounterSet} {field : Field}
    (h : Holds kernel start (recorder.entries switch) world)
    (hread : recorder.reading kernel.toKernel counter_set world field = some value) :
    ∃ p ∈ recorder.entries switch, p.2.attr = field.attr ∧
      value = field.amount kernel (recorder.readIn kernel.toKernel world field.group) p.1 := by
  have hone := one_le_word field
  have hattr := attrs_word field
  rw [← wordAmount_word]
  cases hgroup : field.group with
  | core =>
    rw [hgroup] at hattr
    cases counter_set with
    | core =>
      simp only [reading, hgroup] at hread
      obtain ⟨p, hp, hp', hvalue⟩ := h.word (switch .core)
        (fun p hp => mem_entries.mpr ⟨.core, hp⟩) rfl rfl hread hone
      exact ⟨p, hp, Option.some.inj (hp'.symm.trans hattr), hvalue⟩
    | cache => simp only [reading, hgroup, reduceCtorEq] at hread
  | l1d =>
    rw [hgroup] at hattr
    cases counter_set with
    | core => simp only [reading, hgroup, reduceCtorEq] at hread
    | cache =>
      simp only [reading, hgroup] at hread
      obtain ⟨p, hp, hp', hvalue⟩ := h.word (switch .l1d)
        (fun p hp => mem_entries.mpr ⟨.l1d, hp⟩) rfl rfl hread hone
      exact ⟨p, hp, Option.some.inj (hp'.symm.trans hattr), hvalue⟩
  | llc =>
    rw [hgroup] at hattr
    cases counter_set with
    | core => simp only [reading, hgroup, reduceCtorEq] at hread
    | cache =>
      simp only [reading, hgroup] at hread
      have hmid := h.readWords recorder.l1d EventGroup.l1d.attrs (switch .l1d)
        (fun p hp => mem_entries.mpr ⟨.l1d, hp⟩) rfl
      obtain ⟨p, hp, hp', hvalue⟩ := hmid.word (switch .llc)
        (fun p hp => mem_entries.mpr ⟨.llc, hp⟩) rfl rfl hread hone
      exact ⟨p, hp, Option.some.inj (hp'.symm.trans hattr), hvalue⟩

end X86Recorder

theorem groupEntries_inj (hattrs : (attr :: members.map Prod.snd).Nodup)
    (hp : p ∈ groupEntries switch leader attr members)
    (hq : q ∈ groupEntries switch' leader attr members) (heq : p.2.attr = q.2.attr) :
    p.1 = q.1 := by
  rw [List.nodup_cons] at hattrs
  obtain ⟨hout, hnodup⟩ := hattrs
  rcases List.mem_cons.mp hp with rfl | hp
  · rcases List.mem_cons.mp hq with rfl | hq
    · rfl
    · obtain ⟨m, hm, rfl⟩ := List.mem_map.mp hq
      have hattr : m.2 = attr := heq.symm
      exact absurd (hattr ▸ List.mem_map_of_mem hm) hout
  · obtain ⟨m, hm, rfl⟩ := List.mem_map.mp hp
    rcases List.mem_cons.mp hq with rfl | hq
    · have hattr : m.2 = attr := heq
      exact absurd (hattr ▸ List.mem_map_of_mem hm) hout
    · obtain ⟨m', hm', rfl⟩ := List.mem_map.mp hq
      obtain rfl : m = m' := List.inj_on_of_nodup_map hnodup hm hm' heq
      rfl

theorem X86Recorder.fd_unique {switch switch' : EventGroup → Switch}
    (hp : p ∈ recorder.entries switch) (hq : q ∈ recorder.entries switch')
    (heq : p.2.attr = q.2.attr) : p.1 = q.1 := by
  obtain ⟨group, hp⟩ := mem_entries.mp hp
  obtain ⟨group', hq⟩ := mem_entries.mp hq
  have hok : ∀ {group switch r}, r ∈ recorder.groupOf switch group → recorder.ok group = true := by
    intro group switch r hr
    by_contra hne
    rw [groupOf_not_ok (Bool.not_eq_true _ ▸ hne)] at hr
    cases hr
  obtain ⟨leader, attr, members, hattrs, hentries⟩ := groupOf_ok (hok hp)
  obtain ⟨leader', attr', members', hattrs', hentries'⟩ := groupOf_ok (hok hq)
  have hmem := hentries (switch group) ▸ hp
  have hmem' := hentries' (switch' group') ▸ hq
  have hsame : group = group' := attrs_disjoint (hattrs ▸ (mem_groupEntries hmem).2.1)
    (heq ▸ hattrs' ▸ (mem_groupEntries hmem').2.1)
  subst hsame
  rw [hentries (switch' group)] at hq
  refine groupEntries_inj ?_ hmem hq heq
  rw [← hattrs]
  cases group <;> decide +kernel

-- ---------------------------------------------------------------------------
-- Whole runs
-- ---------------------------------------------------------------------------

theorem Holds.counting_set_iff (h : Holds kernel start (recorder.entries (switchAfter calls)) world)
    (hfd : kernel.event start fd = none) (he : kernel.event world fd = some e) :
    kernel.Counting world fd ↔ ∃ set group, enabledSet calls = some set ∧ group ∈ set.groups ∧
      e.attr ∈ group.attrs := by
  obtain ⟨group, hattr, -, hiff⟩ := h.counting_iff hfd he
  rw [hiff, switchAfter_on]
  constructor
  · rintro ⟨set, hset, hgroup⟩
    exact ⟨set, group, hset, hgroup, hattr⟩
  · rintro ⟨set, group', hset, hgroup, hattr'⟩
    rw [attrs_disjoint hattr hattr']
    exact ⟨set, hset, hgroup⟩

/-- Whichever events the constructor could open, and whatever is called: a group
has all its events or none, every call finds an event under its descriptor, the
events that were open before are as they were, and the destructor leaves just
these. -/
theorem recorder_lifetime (kernel : PerfKernel World) (start : World)
    (h : RecorderRun kernel (X86Recorder.new kernel start).1 (X86Recorder.new kernel start).2
      calls world) :
    (∀ fd e, kernel.event start fd = some e → kernel.event world fd = some e) ∧
      (∀ group, ∀ attr ∈ EventGroup.attrs group,
        ((∃ fd e, kernel.event start fd = none ∧ kernel.event world fd = some e ∧
          e.attr = attr) ↔ (X86Recorder.new kernel start).1.ok group = true)) ∧
      kernel.misused world = kernel.misused start ∧
      kernel.event ((X86Recorder.new kernel start).1.destroy kernel world) = kernel.event start ∧
      kernel.misused ((X86Recorder.new kernel start).1.destroy kernel world) =
        kernel.misused start := by
  obtain ⟨hsettled, hnew⟩ := X86Recorder.new_holds kernel start
  have hholds := h.holds hnew
  have hend := X86Recorder.destroy_holds hholds hsettled
  exact ⟨fun _ _ he => hholds.owned.kept he, fun _ _ hattr => hholds.open_iff hattr, hholds.used,
    hend.owned.eq_base, hend.used⟩

/-- The recorder of a process that may open five more events, and what is left
after its constructor: the L1D group had to close its leader again. -/
def fiveOpens : X86Recorder × PerfState :=
  X86Recorder.new PerfState.kernel (PerfState.initial 5)

def oneTick : PerfState :=
  (RecorderCall.exec PerfState.kernel.toKernel fiveOpens.1 fiveOpens.2 (.enable .core)).tick

theorem fiveOpens_run :
    RecorderRun PerfState.kernel fiveOpens.1 fiveOpens.2 [.enable .core] oneTick := by
  have hnil : RecorderRun PerfState.kernel fiveOpens.1 fiveOpens.2 [] fiveOpens.2 := .nil
  have hon := hnil.call (.enable .core)
  exact hon.work rfl rfl

theorem recorder_lifetime_fiveOpens :
    fiveOpens.1.ok .core = true ∧ fiveOpens.1.ok .l1d = false ∧
      (fiveOpens.1.destroy PerfState.kernel oneTick).event = fun _ => none := by
  obtain ⟨-, -, -, hevent, -⟩ := recorder_lifetime PerfState.kernel (PerfState.initial 5)
    fiveOpens_run
  exact ⟨by decide, by decide, hevent⟩

/-- After any calls, an event of the recorder's counts exactly when it belongs
to the set enabled last, and what a read gives for a field is the amount of the
event the field is named after. -/
theorem recorder_isolates (kernel : PerfKernel World) (start : World)
    (h : RecorderRun kernel (X86Recorder.new kernel start).1 (X86Recorder.new kernel start).2
      calls world) :
    (∀ fd e, kernel.event start fd = none → kernel.event world fd = some e →
      (kernel.Counting world fd ↔ ∃ set group, enabledSet calls = some set ∧
        group ∈ set.groups ∧ e.attr ∈ group.attrs)) ∧
      ∀ counter_set field value, (X86Recorder.new kernel start).1.reading kernel.toKernel
          counter_set world field = some value →
        ∃ fd e, kernel.event start fd = none ∧ kernel.event world fd = some e ∧
          e.attr = field.attr ∧ value = field.amount kernel
            ((X86Recorder.new kernel start).1.readIn kernel.toKernel world field.group) fd ∧
          ∀ fd' e', kernel.event start fd' = none → kernel.event world fd' = some e' →
            e'.attr = field.attr → fd' = fd := by
  have hholds := h.holds (X86Recorder.new_holds kernel start).2
  refine ⟨fun _ _ hfd he => hholds.counting_set_iff hfd he, fun counter_set field value hread => ?_⟩
  obtain ⟨p, hp, hattr, hvalue⟩ := X86Recorder.reading_amount hholds hread
  refine ⟨p.1, p.2, hholds.owned.fresh p hp, hholds.owned.mine p hp, hattr, hvalue, ?_⟩
  intro fd' e' hfd' he' hattr'
  exact X86Recorder.fd_unique (hholds.owned.mem_own hfd' he') hp (hattr'.trans hattr.symm)

theorem recorder_isolates_fiveOpens :
    PerfState.kernel.Counting oneTick 0 ∧
      fiveOpens.1.reading PerfState.kernel.toKernel .core oneTick .cycles = some 1 ∧
      ∃ fd e, oneTick.event fd = some e ∧ e.attr = Field.cycles.attr ∧ oneTick.ticks fd = 1 := by
  obtain ⟨hcounting, hreading⟩ := recorder_isolates PerfState.kernel (PerfState.initial 5)
    fiveOpens_run
  have hread : fiveOpens.1.reading PerfState.kernel.toKernel .core oneTick .cycles = some 1 := by
    decide
  obtain ⟨fd, e, -, he, hattr, hticks, -⟩ := hreading .core .cycles 1 hread
  refine ⟨(hcounting 0 _ rfl rfl).mpr ⟨.core, .core, rfl, ?_, ?_⟩, hread, fd, e, he, hattr,
    hticks.symm⟩
  · decide
  · decide

end BenchHashmaps
