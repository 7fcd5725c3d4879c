import Mathlib.Data.Finmap

/-!
# The graph of a finite map

A finite map as the multiset of its pairs, and what the map operations do to
that multiset. An implementation that stores pairs in some order refines a
finite map when its pairs are the graph.
-/

namespace BenchHashmaps.Lib

variable {α β : Type*}

def graph (M : Finmap fun _ : α => β) : Multiset (α × β) := M.entries.map fun e => (e.1, e.2)

theorem graph_empty : graph (∅ : Finmap fun _ : α => β) = 0 := rfl

theorem card_graph (M : Finmap fun _ : α => β) : (graph M).card = M.entries.card :=
  Multiset.card_map _ _

theorem map_snd_graph (M : Finmap fun _ : α => β) :
    (graph M).map Prod.snd = M.entries.map Sigma.snd :=
  Multiset.map_map _ _ _

theorem mem_iff_graph {M : Finmap fun _ : α => β} : a ∈ M ↔ a ∈ (graph M).map Prod.fst := by
  rw [Finmap.mem_def, graph, Multiset.map_map]
  rfl

variable [DecidableEq α] {M : Finmap fun _ : α => β}

theorem mem_graph : (a, b) ∈ graph M ↔ M.lookup a = some b := by
  rw [Finmap.lookup_eq_some_iff, graph, Multiset.mem_map]
  constructor
  · rintro ⟨e, he, heq⟩
    cases heq
    exact he
  · exact fun he => ⟨_, he, rfl⟩

theorem graph_insert (h : a ∉ M) : graph (M.insert a b) = (a, b) ::ₘ graph M := by
  rw [graph, Finmap.entries_insert_of_notMem h, Multiset.map_cons]
  rfl

theorem graph_erase (h : M.lookup a = some b) : graph M = (a, b) ::ₘ graph (M.erase a) := by
  have hM : M = (M.erase a).insert a b := by
    refine Finmap.ext_lookup fun x => ?_
    by_cases hx : x = a
    · rw [hx, h, Finmap.lookup_insert]
    · rw [Finmap.lookup_insert_of_ne _ hx, Finmap.lookup_erase_ne hx]
  calc graph M = graph ((M.erase a).insert a b) := congrArg graph hM
    _ = (a, b) ::ₘ graph (M.erase a) := graph_insert Finmap.notMem_erase_self

end BenchHashmaps.Lib
