import BenchHashmaps.Boost.Operations
import BenchHashmaps.Lib.Graph

/-!
# Runs of the table

Any sequence of calls, each with its own allocator. A call either returns an
answer or throws `std::bad_alloc`, and the run goes on with the table it leaves
behind, which has not been written then (`Refines.exec`). The table simulates
a finite map with the same answers.
-/

namespace BenchHashmaps.Boost

open Lib (Run ok_bind graph mem_graph graph_insert graph_erase graph_empty card_graph)
open Group15 (Layout)

inductive Op (K V : Type)
  | emplace (e : K × V)
  | erase (x : K)
  | clear
  | rehash (n : UInt64)
  | reserve (n : UInt64)
  deriving DecidableEq, Repr

inductive Answer
  | emplaced (inserted : Bool)
  | erased (n : Nat)
  | done
  | badAlloc
  deriving DecidableEq, Repr

variable {γ K V : Type} [DecidableEq K] {P : Policy K V} {fuel : Nat}

namespace Op

/-- A caller does not ask for more bytes than can be counted. -/
def Fits (P : Policy K V) : Op K V → Prop
  | .rehash n => P.Fits n.toNat
  | .reserve n => ∃ m, sizeForLoad n = .ok m ∧ P.Fits m.toNat
  | _ => True

def exec [Group15 γ] (P : Policy K V) (al : Allocator P.sizeofValue) (fuel : Nat)
    (t : Table γ K V) : Op K V → Table.Outcome γ K V (Table γ K V × Answer)
  | .emplace e => do
    let (t, _, inserted) ← t.emplace P al fuel e
    .ok (t, .emplaced inserted)
  | .erase x => do
    let (t, n) ← t.erase P fuel x
    .ok (t, .erased n)
  | .clear => do .ok (← t.clear, .done)
  | .rehash n => do .ok (← t.rehash P al fuel n, .done)
  | .reserve n => do .ok (← t.reserve P al fuel n, .done)

/-- The finite map the table is for. `emplace` keeps the value of a key that is
there. -/
def apply (M : Finmap fun _ : K => V) : Op K V → (Finmap fun _ : K => V) × Answer
  | .emplace e => if e.1 ∈ M then (M, .emplaced false) else (M.insert e.1 e.2, .emplaced true)
  | .erase x => if x ∈ M then (M.erase x, .erased 1) else (M, .erased 0)
  | .clear => (∅, .done)
  | .rehash _ => (M, .done)
  | .reserve _ => (M, .done)

theorem apply_ne_badAlloc (op : Op K V) (M : Finmap fun _ : K => V) :
    (op.apply M).2 ≠ .badAlloc := by
  cases op with
  | emplace e => rw [apply]; split <;> simp
  | erase x => rw [apply]; split <;> simp
  | clear => simp [apply]
  | rehash n => simp [apply]
  | reserve n => simp [apply]

/-- `erase`, `clear` and the `emplace` of a key that is there do not. -/
def Allocates (M : Finmap fun _ : K => V) : Op K V → Prop
  | .emplace e => e.1 ∉ M
  | .erase _ => False
  | .clear => False
  | .rehash _ => True
  | .reserve _ => True

end Op

structure Call (P : Policy K V) where
  op : Op K V
  al : Allocator P.sizeofValue

def Call.exec [Group15 γ] (call : Call P) (fuel : Nat) (t : Table γ K V) :
    Table.Outcome γ K V (Table γ K V × Answer) :=
  call.op.exec P call.al fuel t

/-- One call. A caller can go on after `std::bad_alloc`. -/
inductive Step [Group15 γ] (P : Policy K V) (fuel : Nat) (t : Table γ K V) :
    Call P × Answer → Table γ K V → Prop
  | returns : call.exec fuel t = .ok (t', answer) → Step P fuel t (call, answer) t'
  | throws : call.exec fuel t = .error (.badAlloc, t') → Step P fuel t (call, .badAlloc) t'

def Call.next [Group15 γ] (call : Call P) (fuel : Nat) (t : Table γ K V) :
    Option (Answer × Table γ K V) :=
  match call.exec fuel t with
  | .ok (t', answer) => some (answer, t')
  | .error (.badAlloc, t') => some (.badAlloc, t')
  | .error _ => none

/-- The table a run ends with, if the calls have these answers. -/
def replay [Group15 γ] (fuel : Nat) (t : Table γ K V) :
    List (Call P × Answer) → Option (Table γ K V)
  | [] => some t
  | (call, answer) :: trace => (call.next fuel t).bind fun r =>
    if r.1 = answer then replay fuel r.2 trace else none

theorem step_iff [Group15 γ] {t t' : Table γ K V} {i : Call P × Answer} :
    Step P fuel t i t' ↔ i.1.next fuel t = some (i.2, t') := by
  constructor
  · intro hs
    cases hs with
    | returns h => simp only [Call.next, h]
    | throws h => simp only [Call.next, h]
  · obtain ⟨call, answer⟩ := i
    intro h
    simp only [Call.next] at h
    split at h
    next hr => cases h; exact .returns hr
    next hr => cases h; exact .throws hr
    next => cases h

theorem run_iff_replay [Group15 γ] {t t' : Table γ K V} {trace : List (Call P × Answer)} :
    Run (Step P fuel) t trace t' ↔ replay fuel t trace = some t' := by
  constructor
  · intro hr
    induction hr with
    | nil => rfl
    | cons hs _ ih => rw [replay, step_iff.mp hs, Option.bind_some, if_pos rfl, ih]
  · intro h
    induction trace generalizing t with
    | nil =>
      cases h
      exact .nil
    | cons i trace ih =>
      obtain ⟨r, hr, h⟩ := Option.bind_eq_some_iff.mp h
      split at h
      case isTrue heq => exact .cons (step_iff.mpr (heq ▸ hr)) (ih h)
      case isFalse => cases h

/-- The same call on the finite map. Whether memory is missing is up to the
allocator, but only where the call may ask for some. -/
inductive MapStep (M : Finmap fun _ : K => V) :
    Call P × Answer → (Finmap fun _ : K => V) → Prop
  | returns : call.op.apply M = (M', answer) → MapStep M (call, answer) M'
  | throws : call.op.Allocates M → MapStep M (call, .badAlloc) M

def wordPolicy : Policy UInt64 UInt64 := pairPolicy id

/-- One key three times and another. The first `emplace` and the `rehash` find
no memory, and the calls after them need none. -/
def wordCalls : List (Call wordPolicy) :=
  [⟨.emplace (1, 10), .exhausted 16⟩, ⟨.emplace (1, 10), .ample 16⟩,
   ⟨.emplace (1, 20), .exhausted 16⟩, ⟨.reserve 40, .ample 16⟩, ⟨.rehash 100, .exhausted 16⟩,
   ⟨.erase 1, .exhausted 16⟩, ⟨.clear, .exhausted 16⟩, ⟨.emplace (2, 30), .exhausted 16⟩]

def wordTrace : List (Call wordPolicy × Answer) :=
  wordCalls.zip [.badAlloc, .emplaced true, .emplaced false, .done, .badAlloc, .erased 1, .done,
    .emplaced true]

theorem wordCalls_fit : ∀ call ∈ wordCalls, call.op.Fits wordPolicy := by
  have hload : sizeForLoad 40 = .ok 46 := by decide +kernel
  have hreserve : wordPolicy.Fits 46 := by unfold Policy.Fits; decide
  have hrehash : wordPolicy.Fits 100 := by unfold Policy.Fits; decide
  simp only [wordCalls, List.forall_mem_cons, Op.Fits, true_and]
  exact ⟨⟨46, hload, hreserve⟩, hrehash, nofun⟩

namespace Table

variable [Group15 γ] [Layout γ] {t t' : Table γ K V} {M M' : Finmap fun _ : K => V}

structure Refines (P : Policy K V) (t : Table γ K V) (M : Finmap fun _ : K => V) : Prop where
  ok : t.Ok P
  pairs : t.contents = graph M

theorem Refines.mem_iff (h : Refines P t M) : x ∈ M ↔ ∃ v, (x, v) ∈ t.contents := by
  rw [h.pairs, ← Finmap.lookup_isSome, Option.isSome_iff_exists]
  simp only [mem_graph]

theorem Refines.notMem_iff (h : Refines P t M) : x ∉ M ↔ ∀ v, (x, v) ∉ t.contents := by
  rw [h.mem_iff, not_exists]

omit [DecidableEq K] in
theorem empty_refines : Refines P (empty : Table γ K V) ∅ := ⟨empty_ok, rfl⟩

-- ---------------------------------------------------------------------------
-- One call
-- ---------------------------------------------------------------------------

/-- Every call comes back, with the map's answer or without memory. In the
second case it has not written the table. -/
theorem Refines.exec (h : Refines P t M) (call : Call P) (hfits : call.op.Fits P)
    (hfuel : 2 ^ 64 ≤ fuel) :
    call.exec fuel t = .error (.badAlloc, t) ∧ call.op.Allocates M ∨
      ∃ t', call.exec fuel t = .ok (t', (call.op.apply M).2) ∧
        Refines P t' (call.op.apply M).1 := by
  obtain ⟨op, al⟩ := call
  cases op with
  | emplace e =>
    rcases h.ok.emplace_spec al e hfuel with ⟨hbad, hnew⟩ | ⟨r, hr, hspec⟩
    · refine .inl ⟨?_, h.notMem_iff.mpr hnew⟩
      change (t.emplace P al fuel e >>= _) = _
      rw [hbad]
      rfl
    · right
      change ∃ t', (t.emplace P al fuel e >>= _) = _ ∧ _
      rw [hr]
      cases hspec with
      | @found v loc hmem _ =>
        have hM : e.1 ∈ M := h.mem_iff.mpr ⟨v, hmem⟩
        rw [Op.apply, if_pos hM]
        exact ⟨t, rfl, h⟩
      | @inserted t' loc hnew hok hc _ _ =>
        have hM : e.1 ∉ M := h.notMem_iff.mpr hnew
        rw [Op.apply, if_neg hM]
        exact ⟨t', rfl, hok, by rw [hc, h.pairs, graph_insert hM]⟩
  | erase x =>
    right
    obtain ⟨r, hr, hspec⟩ := h.ok.erase_spec x hfuel
    change ∃ t', (t.erase P fuel x >>= _) = _ ∧ _
    rw [hr]
    cases hspec with
    | @erased v t' hok hc =>
      have hlookup : M.lookup x = some v := by
        rw [← mem_graph, ← h.pairs, hc]
        exact Multiset.mem_cons_self _ _
      have hM : x ∈ M := Finmap.mem_of_lookup_eq_some hlookup
      rw [Op.apply, if_pos hM]
      refine ⟨t', rfl, hok, ?_⟩
      rw [h.pairs, graph_erase hlookup, Multiset.cons_inj_right] at hc
      exact hc.symm
    | absent hnone =>
      rw [Op.apply, if_neg (h.notMem_iff.mpr hnone)]
      exact ⟨t, rfl, h⟩
  | clear =>
    right
    obtain ⟨t', ht', hok, hc, -⟩ := h.ok.clear_spec
    refine ⟨t', ?_, hok, hc.trans graph_empty.symm⟩
    change (t.clear >>= _) = _
    rw [ht']
    rfl
  | rehash n =>
    rcases h.ok.rehash_spec al hfits hfuel with hbad | ⟨t', ht', hre⟩
    · refine .inl ⟨?_, trivial⟩
      change (t.rehash P al fuel n >>= _) = _
      rw [hbad]
      rfl
    · right
      refine ⟨t', ?_, hre.ok, hre.contents.trans h.pairs⟩
      change (t.rehash P al fuel n >>= _) = _
      rw [ht']
      rfl
  | reserve n =>
    obtain ⟨m, hm, hmfits⟩ := hfits
    rcases h.ok.reserve_spec al hm hmfits hfuel with hbad | ⟨t', ht', hre⟩
    · refine .inl ⟨?_, trivial⟩
      change (t.reserve P al fuel n >>= _) = _
      rw [hbad]
      rfl
    · right
      refine ⟨t', ?_, hre.ok, hre.contents.trans h.pairs⟩
      change (t.reserve P al fuel n >>= _) = _
      rw [ht']
      rfl

def KeepsOnThrow (t : Table γ K V) (i : Call P × Answer) (t' : Table γ K V) : Prop :=
  i.2 = .badAlloc → t' = t

theorem Refines.step (h : Refines P t M) (hs : Step P fuel t i t') (hfits : i.1.op.Fits P)
    (hfuel : 2 ^ 64 ≤ fuel) :
    KeepsOnThrow t i t' ∧ ∃ M', MapStep M i M' ∧ Refines P t' M' := by
  cases hs with
  | @returns call t' answer hret =>
    rcases h.exec call hfits hfuel with ⟨hbad, -⟩ | ⟨t₁, hok, href⟩
    · cases hbad.symm.trans hret
    · cases hok.symm.trans hret
      exact ⟨fun hbad => absurd hbad (call.op.apply_ne_badAlloc M), _, .returns rfl, href⟩
  | @throws call t' hthrow =>
    rcases h.exec call hfits hfuel with ⟨hbad, hal⟩ | ⟨t₁, hok, -⟩
    · cases hbad.symm.trans hthrow
      exact ⟨fun _ => rfl, M, .throws hal, h⟩
    · cases hok.symm.trans hthrow

theorem Refines.value (h : Refines P t M) (x : K) (hfuel : 2 ^ 64 ≤ fuel) :
    t.value P fuel x = .ok (M.lookup x) := by
  obtain ⟨r, hr, hspec⟩ := h.ok.value_spec x hfuel
  rw [hr]
  congr 1
  refine Option.ext fun v => ?_
  rw [hspec, h.pairs, mem_graph]

omit [DecidableEq K] in
theorem Refines.size (h : Refines P t M) : t.size.toNat = M.keys.card := by
  rw [h.ok.size_eq, h.pairs, card_graph]
  exact (Multiset.card_map _ _).symm

-- ---------------------------------------------------------------------------
-- Runs
-- ---------------------------------------------------------------------------

theorem Refines.run (h : Refines P t M) (hr : Run (Step P fuel) t calls t')
    (hfits : ∀ i ∈ calls, i.1.op.Fits P) (hfuel : 2 ^ 64 ≤ fuel) :
    ∃ M', Run MapStep M calls M' ∧ Refines P t' M' := by
  induction hr generalizing M with
  | nil => exact ⟨M, .nil, h⟩
  | cons hs _ ih =>
    obtain ⟨-, mid, hmid, href⟩ := h.step hs (hfits _ List.mem_cons_self) hfuel
    obtain ⟨M', hM', href'⟩ := ih href fun i hi => hfits i (List.mem_cons_of_mem _ hi)
    exact ⟨M', .cons hmid hM', href'⟩

theorem Refines.run_keeps (h : Refines P t M) (hr : Run (Step P fuel) t calls t')
    (hfits : ∀ i ∈ calls, i.1.op.Fits P) (hfuel : 2 ^ 64 ≤ fuel) :
    Run (fun t i t' => Step P fuel t i t' ∧ KeepsOnThrow t i t') t calls t' := by
  induction hr generalizing M with
  | nil => exact .nil
  | cons hs _ ih =>
    obtain ⟨hkeeps, mid, -, href⟩ := h.step hs (hfits _ List.mem_cons_self) hfuel
    exact .cons ⟨hs, hkeeps⟩ (ih href fun i hi => hfits i (List.mem_cons_of_mem _ hi))

theorem Refines.runs_exist (h : Refines P t M) (calls : List (Call P))
    (hfits : ∀ call ∈ calls, call.op.Fits P) (hfuel : 2 ^ 64 ≤ fuel) :
    ∃ trace, trace.map Prod.fst = calls ∧ ∃ t', Run (Step P fuel) t trace t' := by
  induction calls generalizing t M with
  | nil => exact ⟨[], rfl, t, .nil⟩
  | cons call calls ih =>
    have hrest : ∀ c ∈ calls, c.op.Fits P := fun c hc => hfits c (List.mem_cons_of_mem _ hc)
    rcases h.exec call (hfits call List.mem_cons_self) hfuel with ⟨hbad, -⟩ | ⟨t', hok, href⟩
    · obtain ⟨trace, rfl, t'', hr⟩ := ih h hrest
      exact ⟨(call, .badAlloc) :: trace, rfl, t'', .cons (.throws hbad) hr⟩
    · obtain ⟨trace, rfl, t'', hr⟩ := ih href hrest
      exact ⟨(call, _) :: trace, rfl, t'', .cons (.returns hok) hr⟩

theorem wordTrace_fits : ∀ i ∈ wordTrace, i.1.op.Fits wordPolicy := by
  intro i hi
  have hcalls : wordTrace.map Prod.fst = wordCalls := rfl
  exact wordCalls_fit i.1 (hcalls ▸ List.mem_map_of_mem hi)

theorem wordTrace_run : ∃ t, Run (Step wordPolicy (2 ^ 64))
    (empty : Table Sse2 UInt64 UInt64) wordTrace t := by
  have h : (replay (2 ^ 64) (empty : Table Sse2 UInt64 UInt64) wordTrace).isSome = true := by
    decide +kernel
  obtain ⟨t, ht⟩ := Option.isSome_iff_exists.mp h
  exact ⟨t, run_iff_replay.mpr ht⟩

/-- Whatever is called on a new table, and whichever allocations fail, the
table is a finite map that gave the same answers. -/
theorem run_simulates_map (hr : Run (Step P fuel) (empty : Table γ K V) calls t)
    (hfits : ∀ i ∈ calls, i.1.op.Fits P) (hfuel : 2 ^ 64 ≤ fuel) :
    ∃ M, Run MapStep ∅ calls M ∧ t.contents = graph M ∧ t.size.toNat = M.keys.card ∧
      ∀ x, t.value P fuel x = .ok (M.lookup x) := by
  obtain ⟨M, hM, href⟩ := empty_refines.run hr hfits hfuel
  exact ⟨M, hM, href.pairs, href.size, fun x => href.value x hfuel⟩

theorem wordCalls_simulate_map :
    ∃ (t : Table Sse2 UInt64 UInt64) (M : Finmap fun _ : UInt64 => UInt64),
      Run (Step wordPolicy (2 ^ 64)) empty wordTrace t ∧ Run MapStep ∅ wordTrace M ∧
        t.contents = graph M ∧ t.size.toNat = M.keys.card ∧
        ∀ x, t.value wordPolicy (2 ^ 64) x = .ok (M.lookup x) := by
  obtain ⟨t, hr⟩ := wordTrace_run
  obtain ⟨M, hM, hspec⟩ := run_simulates_map hr wordTrace_fits le_rfl
  exact ⟨t, M, hr, hM, hspec⟩

/-- No call faults or loops, on any table a run can lead to; what a call that
throws leaves behind is the table it was called on. -/
theorem run_exists (calls : List (Call P)) (hfits : ∀ call ∈ calls, call.op.Fits P)
    (hfuel : 2 ^ 64 ≤ fuel) :
    (∃ trace, trace.map Prod.fst = calls ∧
      ∃ t, Run (Step P fuel) (empty : Table γ K V) trace t) ∧
    ∀ trace t, trace.map Prod.fst = calls → Run (Step P fuel) (empty : Table γ K V) trace t →
      Run (fun t i t' => Step P fuel t i t' ∧ KeepsOnThrow t i t') empty trace t := by
  refine ⟨empty_refines.runs_exist calls hfits hfuel, fun trace t htrace hr => ?_⟩
  refine empty_refines.run_keeps hr (fun i hi => hfits i.1 ?_) hfuel
  exact htrace ▸ List.mem_map_of_mem hi

theorem wordCalls_return :
    (∃ trace, trace.map Prod.fst = wordCalls ∧ ∃ t : Table Sse2 UInt64 UInt64,
      Run (Step wordPolicy (2 ^ 64)) empty trace t) ∧
    ∃ t : Table Sse2 UInt64 UInt64, Run
      (fun t i t' => Step wordPolicy (2 ^ 64) t i t' ∧ KeepsOnThrow t i t') empty wordTrace t := by
  obtain ⟨hexists, hkeeps⟩ := run_exists (γ := Sse2) wordCalls wordCalls_fit le_rfl
  obtain ⟨t, hr⟩ := wordTrace_run
  exact ⟨hexists, t, hkeeps wordTrace t rfl hr⟩

theorem run_load (hr : Run (Step P fuel) (empty : Table γ K V) calls t)
    (hfits : ∀ i ∈ calls, i.1.op.Fits P) (hfuel : 2 ^ 64 ≤ fuel) :
    t.size ≤ t.ml ∧ t.ml ≤ t.capacity ∧
      (t.capacity = 0 ∨ ∃ level, 1 ≤ level ∧ t.capacity.toNat = 15 * 2 ^ level - 1) := by
  obtain ⟨M, -, href⟩ := empty_refines.run hr hfits hfuel
  rcases href.ok with rfl | ⟨level, h⟩
  · exact ⟨UInt64.le_refl 0, UInt64.le_refl 0, .inl rfl⟩
  · have hcap := h.arrays.capacity_eq
    refine ⟨UInt64.le_iff_toNat_le.mpr h.size_le, UInt64.le_iff_toNat_le.mpr ?_,
      .inr ⟨level, h.arrays.one_le, hcap⟩⟩
    rw [capacity, hcap]
    exact h.ml_le

theorem wordCalls_load : ∃ t : Table Sse2 UInt64 UInt64,
    Run (Step wordPolicy (2 ^ 64)) empty wordTrace t ∧ t.size ≤ t.ml ∧ t.ml ≤ t.capacity ∧
      (t.capacity = 0 ∨ ∃ level, 1 ≤ level ∧ t.capacity.toNat = 15 * 2 ^ level - 1) := by
  obtain ⟨t, hr⟩ := wordTrace_run
  exact ⟨t, hr, run_load hr wordTrace_fits le_rfl⟩

end Table

end BenchHashmaps.Boost
