import BenchHashmaps.TwoWay.Representation
import BenchHashmaps.Lib.Graph

/-!
# The table is a finite map

The abstract machine is a finite map from keys to values, on which `grow`
does nothing. Its steps carry the preconditions of the calls. The table
simulates it: the pairs it stores are the graph of the map.
-/

namespace BenchHashmaps

open Lib (Run graph mem_graph mem_iff_graph graph_empty graph_insert graph_erase card_graph
  map_snd_graph)

variable {Key Value : Type} [LinearOrder Key] [OrderTop Key] {BUCKET : Nat}

-- ---------------------------------------------------------------------------
-- The abstract machine
-- ---------------------------------------------------------------------------

abbrev Map (Key Value : Type) := Finmap fun _ : Key => Value

namespace Op

def apply (M : Map Key Value) : Op Key Value → Map Key Value
  | .insert key value => M.insert key value
  | .erase key => M.erase key
  | .grow => M
  | .clear => ∅

/-- `insert` assumes its key is not in the map, `erase` that it is. -/
def Admits (M : Map Key Value) : Op Key Value → Prop
  | .insert key _ => key ≠ EMPTY ∧ key ∉ M
  | .erase key => key ∈ M
  | .grow => True
  | .clear => True

end Op

abbrev MapRuns : Map Key Value → List (Op Key Value) → Map Key Value → Prop :=
  Run fun M op M' => op.Admits M ∧ M' = op.apply M

namespace TwoWay

section
variable {p : Target Key Value BUCKET} {t t' : TwoWay Key Value BUCKET} {M M' : Map Key Value}

structure Refines (p : Target Key Value BUCKET) (t : TwoWay Key Value BUCKET)
    (M : Map Key Value) : Prop where
  inv : Inv p t
  pairs : t.pairs = graph M

theorem Refines.mem_keys (hR : Refines p t M) : key ∈ t.keys ↔ key ∈ M := by
  rw [keys, hR.pairs, mem_iff_graph]

-- ---------------------------------------------------------------------------
-- Simulation
-- ---------------------------------------------------------------------------

theorem Refines.keyOk (hR : Refines p t M) (ha : Op.Admits M op) : op.KeyOk := by
  cases op with
  | insert key value => exact ha.1
  | erase key => exact hR.inv.ne_empty_of_mem_keys (hR.mem_keys.mpr ha)
  | grow => trivial
  | clear => trivial

theorem Refines.step (hR : Refines p t M) (ha : Op.Admits M op) (h : op.Returns p t t') :
    Refines p t' (op.apply M) := by
  have he := Step.effect hR.inv ⟨hR.keyOk ha, h⟩
  refine ⟨he.inv, ?_⟩
  cases he with
  | insert _ h => rw [h.pairs hR.inv, hR.pairs, Op.apply, graph_insert ha.2]
  | @erase key first n value _ _ h =>
    have hpairs := h.pairs hR.inv
    have hlookup : M.lookup key = some value := by
      rw [← mem_graph, ← hR.pairs, hpairs]
      exact Multiset.mem_cons_self _ _
    rw [hR.pairs, graph_erase hlookup] at hpairs
    exact ((Multiset.cons_inj_right _).mp hpairs).symm
  | grow h => rw [h.pairs hR.inv, hR.pairs, Op.apply]
  | clear h => rw [h.pairs, Op.apply, graph_empty]

theorem Refines.new (h : new p = .ok t) : Refines p t ∅ :=
  ⟨(new_ok h).inv, (new_ok h).pairs⟩

theorem Refines.run (hR : Refines p t M) (hr : Run (fun t op t' => op.Returns p t t') t ops t')
    (hM : MapRuns M ops M') : Refines p t' M' := by
  refine hr.sim (Refines p) ?_ hM hR
  rintro t op t' M _ hR h ⟨ha, rfl⟩
  exact hR.step ha h

-- ---------------------------------------------------------------------------
-- Observations
-- ---------------------------------------------------------------------------

theorem Refines.contains (hR : Refines p t M) (hk : key ≠ EMPTY) (steps : UInt64) :
    ∃ steps', contains p t key steps = .ok (decide (key ∈ M), steps') := by
  obtain ⟨steps', h⟩ := contains_ok hR.inv hk steps
  exact ⟨steps', by rw [h, decide_eq_decide.mpr hR.mem_keys]⟩

theorem Refines.find (hR : Refines p t M) (h : M.lookup key = some value) (steps : UInt64) :
    ∃ steps', find p t key steps = .ok (value, steps') := by
  have hm : key ∈ t.keys := hR.mem_keys.mpr (Finmap.mem_of_lookup_eq_some h)
  obtain ⟨first, n, value', t', -, -, -, hfind, -, -, he⟩ := found hR.inv hm
  have hvalue : M.lookup key = some value' := by
    rw [← mem_graph, ← hR.pairs, he.pairs hR.inv]
    exact Multiset.mem_cons_self _ _
  cases h.symm.trans hvalue
  exact ⟨_, hfind steps⟩

/-- After any run that keeps to the preconditions, every observation of the
table is that of the finite map. -/
theorem table_refines_map (h0 : new p = .ok t)
    (hr : Run (fun t op t' => op.Returns p t t') t ops t') (hM : MapRuns ∅ ops M) :
    (∀ key, key ≠ EMPTY → ∀ steps,
      (∃ steps', TwoWay.contains p t' key steps = .ok (decide (key ∈ M), steps')) ∧
      ∀ value, M.lookup key = some value →
        ∃ steps', TwoWay.find p t' key steps = .ok (value, steps')) ∧
    t'.size.toNat = M.entries.card ∧
    ∀ [AddCommMonoid Value], t'.sumAllValues = .ok (M.entries.map Sigma.snd).sum := by
  have hR : Refines p t' M := (Refines.new h0).run hr hM
  refine ⟨fun key hk steps => ⟨hR.contains hk steps, fun value h => hR.find h steps⟩, ?_, ?_⟩
  · rw [hR.inv.size_eq, hR.pairs, card_graph]
  · intro _
    rw [hR.inv.sumAllValues_eq, hR.pairs, map_snd_graph]

theorem u64_table_refines_map : ∃ t0 t, new u64Target = .ok t0 ∧
    Runs u64Target t0 [.insert 1 10, .insert 2 20, .erase 1, .grow] t ∧ t.size.toNat = 1 ∧
      ∃ steps, TwoWay.find u64Target t 2 0 = .ok (20, steps) := by
  obtain ⟨t0, t, h0, hr, -⟩ := exists_runs u64Target 2
    [.insert 1 10, .insert 2 20, .erase 1, .grow] (fun _ => true) (by decide)
    (by decide +kernel)
  have hM : MapRuns (∅ : Map UInt64 UInt64) [.insert 1 10, .insert 2 20, .erase 1, .grow]
      (((Finmap.insert 2 20 (Finmap.insert 1 10 ∅))).erase 1) :=
    .cons ⟨⟨by decide, Finmap.notMem_empty⟩, rfl⟩ <|
      .cons ⟨⟨by decide, by simp [Op.apply, Finmap.notMem_empty]⟩, rfl⟩ <|
      .cons ⟨by simp [Op.Admits, Op.apply], rfl⟩ <| .cons ⟨trivial, rfl⟩ .nil
  obtain ⟨hlookup, hsize, -⟩ := table_refines_map h0 (hr.mono fun _ _ _ h => h.2) hM
  exact ⟨t0, t, h0, hr, by rw [hsize]; decide, (hlookup 2 (by decide) 0).2 20 (by decide)⟩

end

end TwoWay

end BenchHashmaps
