import Mathlib.Data.List.Nodup
import Mathlib.Algebra.Order.Group.Multiset

/-!
# Arrays of slots

A list of optional values as the multiset of the values in it: what filling
and emptying one slot does to that multiset, and walks that visit every full
slot once.
-/

namespace BenchHashmaps.Lib

variable {α : Type*} {slots : List (Option α)}

def contents (slots : List (Option α)) : Multiset α := ↑(slots.filterMap id)

theorem mem_contents : x ∈ contents slots ↔ ∃ i : Nat, slots[i]? = some (some x) := by
  rw [contents, Multiset.mem_coe, List.mem_filterMap]
  constructor
  · rintro ⟨_, hx, rfl⟩
    exact List.mem_iff_getElem?.mp hx
  · rintro ⟨i, hi⟩
    exact ⟨_, List.mem_of_getElem? hi, rfl⟩

theorem contents_cons (x : Option α) (slots : List (Option α)) :
    contents (x :: slots) = ↑x.toList + contents slots := by
  cases x <;> rfl

theorem contents_set (h : slots[i]? = some old) (x : Option α) :
    ↑old.toList + contents (slots.set i x) = ↑x.toList + contents slots := by
  induction slots generalizing i with
  | nil => cases h
  | cons y slots ih =>
    cases i with
    | zero =>
      cases h
      rw [List.set_cons_zero, contents_cons, contents_cons, add_left_comm]
    | succ i =>
      rw [List.set_cons_succ, contents_cons, contents_cons, add_left_comm, ih h, add_left_comm]

theorem contents_set_some (h : slots[i]? = some none) (x : α) :
    contents (slots.set i (some x)) = x ::ₘ contents slots := by
  have hset := contents_set h (some x)
  rwa [Option.toList_none, Multiset.coe_nil, zero_add] at hset

theorem contents_set_none (h : slots[i]? = some (some x)) :
    contents slots = x ::ₘ contents (slots.set i none) := by
  have hset := contents_set h none
  rw [Option.toList_none, Multiset.coe_nil, zero_add] at hset
  exact hset.symm

theorem exists_empty (h : (contents slots).card < slots.length) :
    ∃ i : Nat, slots[i]? = some none := by
  by_contra hfull
  have hsome : ∀ x ∈ slots, (id x).isSome := by
    intro x hx
    cases x with
    | none => exact absurd (List.mem_iff_getElem?.mp hx) hfull
    | some => rfl
  exact Nat.ne_of_lt h (List.filterMap_length_eq_length.mpr hsome)

/-- A walk that visits exactly the full slots, each once, reads the contents. -/
theorem contents_eq_of_walk {walk : List Nat} (hnodup : walk.Nodup)
    (hmem : ∀ i, i ∈ walk ↔ ∃ x, slots[i]? = some (some x)) :
    ↑(walk.filterMap fun i => (slots[i]?).join) = contents slots := by
  let full : List Nat := (List.range slots.length).filter fun i => (slots[i]?).join.isSome
  have hfull : walk.Perm full := by
    refine (List.perm_ext_iff_of_nodup hnodup (List.nodup_range.filter _)).mpr fun i => ?_
    rw [hmem, List.mem_filter, List.mem_range, Option.isSome_iff_exists]
    simp only [Option.join_eq_some_iff]
    constructor
    · rintro ⟨x, hx⟩
      exact ⟨(List.getElem?_eq_some_iff.mp hx).1, x, hx⟩
    · exact And.right
  have hrange : (List.range slots.length).map (fun i => (slots[i]?).join) = slots := by
    refine List.ext_getElem (by simp) fun i h _ => ?_
    simp at h
    simp [h]
  calc (↑(walk.filterMap fun i => (slots[i]?).join) : Multiset α)
      = ↑(full.filterMap fun i => (slots[i]?).join) := Multiset.coe_eq_coe.mpr (hfull.filterMap _)
    _ = ↑((List.range slots.length).filterMap fun i => (slots[i]?).join) := by
      rw [List.filterMap_filter]
      congr 2
      funext i
      cases (slots[i]?).join <;> rfl
    _ = contents slots := by
      conv_rhs => rw [contents, ← hrange, List.filterMap_map]
      rfl

end BenchHashmaps.Lib
