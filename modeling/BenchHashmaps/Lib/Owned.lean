import Mathlib.Data.List.Nodup

/-!
# Owned handles

A table maps the handles that are open to what is behind them. Who opens
handles of its own on top of a table it found owns those, and only those: the
others are behind what they were. When it owns none any more, the table is the
one it found.
-/

namespace BenchHashmaps.Lib

variable {ι α : Type*} {base now : ι → Option α} {own : List (ι × α)}

structure Owned (base : ι → Option α) (own : List (ι × α)) (now : ι → Option α) : Prop where
  nodup : (own.map Prod.fst).Nodup
  fresh : ∀ p ∈ own, base p.1 = none
  mine : ∀ p ∈ own, now p.1 = some p.2
  frame : ∀ i, i ∉ own.map Prod.fst → now i = base i

namespace Owned

theorem nil (base : ι → Option α) : Owned base [] base :=
  ⟨List.nodup_nil, by simp, by simp, fun _ _ => rfl⟩

theorem eq_base (h : Owned base [] now) : now = base :=
  funext fun i => h.frame i (List.not_mem_nil)

theorem kept (h : Owned base own now) (hi : base i = some a) : now i = some a := by
  rw [h.frame i, hi]
  intro hmem
  obtain ⟨p, hp, rfl⟩ := List.mem_map.mp hmem
  rw [h.fresh p hp] at hi
  cases hi

theorem mem_own (h : Owned base own now) (hi : base i = none) (ha : now i = some a) :
    (i, a) ∈ own := by
  by_cases hmem : i ∈ own.map Prod.fst
  · obtain ⟨p, hp, rfl⟩ := List.mem_map.mp hmem
    have heq := (h.mine p hp).symm.trans ha
    cases heq
    exact hp
  · rw [h.frame i hmem, hi] at ha
    cases ha

theorem update (h : Owned base own now) (u : ι → α → α)
    (hother : ∀ i a, base i = some a → u i a = a) :
    Owned base (own.map fun p => (p.1, u p.1 p.2)) fun i => (now i).map (u i) := by
  have hkeys : (own.map fun p => (p.1, u p.1 p.2)).map Prod.fst = own.map Prod.fst := by
    rw [List.map_map]
    rfl
  refine ⟨hkeys ▸ h.nodup, ?_, ?_, ?_⟩
  · intro p hp
    obtain ⟨q, hq, rfl⟩ := List.mem_map.mp hp
    exact h.fresh q hq
  · intro p hp
    obtain ⟨q, hq, rfl⟩ := List.mem_map.mp hp
    rw [h.mine q hq]
    rfl
  · intro i hi
    rw [hkeys] at hi
    rw [h.frame i hi]
    cases hb : base i with
    | none => rfl
    | some a => rw [Option.map_some, hother i a hb]

variable [DecidableEq ι]

theorem acquire (h : Owned base own now) (hi : now i = none) (a : α) :
    Owned base (own ++ [(i, a)]) fun j => if j = i then some a else now j := by
  have hout : i ∉ own.map Prod.fst := by
    intro hmem
    obtain ⟨p, hp, rfl⟩ := List.mem_map.mp hmem
    rw [h.mine p hp] at hi
    cases hi
  have hne : ∀ p ∈ own, p.1 ≠ i := fun p hp heq => hout (List.mem_map.mpr ⟨p, hp, heq⟩)
  refine ⟨?_, ?_, ?_, ?_⟩
  · rw [List.map_append, List.nodup_append]
    refine ⟨h.nodup, List.nodup_singleton _, ?_⟩
    rintro j hj k hk rfl
    obtain rfl : j = i := List.mem_singleton.mp hk
    exact hout hj
  · intro p hp
    rcases List.mem_append.mp hp with hp | hp
    · exact h.fresh p hp
    · rw [List.mem_singleton.mp hp, ← h.frame i hout, hi]
  · intro p hp
    rcases List.mem_append.mp hp with hp | hp
    · rw [if_neg (hne p hp), h.mine p hp]
    · rw [List.mem_singleton.mp hp, if_pos rfl]
  · intro j hj
    rw [List.map_append, List.mem_append, not_or] at hj
    rw [if_neg fun heq => hj.2 (by simp [heq]), h.frame j hj.1]

theorem release {p : ι × α} (h : Owned base (own ++ p :: rest) now) :
    Owned base (own ++ rest) fun j => if j = p.1 then none else now j := by
  have hsplit : (own ++ p :: rest).map Prod.fst = own.map Prod.fst ++ p.1 :: rest.map Prod.fst := by
    rw [List.map_append, List.map_cons]
  have hnodup := h.nodup
  rw [hsplit, List.nodup_middle, List.nodup_cons, ← List.map_append] at hnodup
  have hsub : ∀ q ∈ own ++ rest, q ∈ own ++ p :: rest := fun q hq =>
    (List.sublist_cons_self p rest).append_left own |>.subset hq
  refine ⟨hnodup.2, fun q hq => h.fresh q (hsub q hq), fun q hq => ?_, fun j hj => ?_⟩
  · have hne : q.1 ≠ p.1 := fun heq => hnodup.1 (heq ▸ List.mem_map_of_mem hq)
    rw [if_neg hne, h.mine q (hsub q hq)]
  · split
    case isTrue heq => rw [heq, h.fresh p (List.mem_append_right _ List.mem_cons_self)]
    case isFalse hne =>
      refine h.frame j ?_
      rw [hsplit, List.mem_append, List.mem_cons, or_left_comm, ← List.mem_append,
        ← List.map_append]
      exact not_or.mpr ⟨hne, hj⟩

end Owned

end BenchHashmaps.Lib
