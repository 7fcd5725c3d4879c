import Mathlib.Data.List.TakeWhile
import Mathlib.Tactic.NthRewrite

/-!
# Arrays whose live cells are a prefix

A fixed array of cells in which a predicate tells live cells from free ones.
It is packed when no live cell follows a free one; then its contents are the
list of its live cells, writing the first free cell appends to that list, and
closing the gap of a removed cell erases from it.
-/

namespace BenchHashmaps.Lib

variable {α : Type*} {p : α → Bool}

def Packed (p : α → Bool) (cells : List α) : Prop := ∀ x ∈ cells.dropWhile p, p x = false

abbrev live (p : α → Bool) (cells : List α) : List α := cells.takeWhile p

theorem live_of_append (ha : ∀ x ∈ a, p x = true) (hb : ∀ x ∈ b, p x = false) :
    live p (a ++ b) = a := by
  rw [live, List.takeWhile_append_of_pos ha]
  cases b with
  | nil => simp
  | cons x b => simp [hb x]

theorem packed_of_append (ha : ∀ x ∈ a, p x = true) (hb : ∀ x ∈ b, p x = false) :
    Packed p (a ++ b) := by
  rw [Packed, List.dropWhile_append_of_pos ha]
  intro x hx
  exact hb x ((List.dropWhile_suffix p).subset hx)

theorem live_pos (h : x ∈ live p cells) : p x = true := List.mem_takeWhile_imp h

theorem live_length_le (p : α → Bool) (cells : List α) : (live p cells).length ≤ cells.length :=
  (List.takeWhile_prefix p).length_le

/-- Live cells first, then the free ones: every law below is read off here. -/
theorem Packed.split (h : Packed p cells) : ∃ free, cells = live p cells ++ free ∧
    ∀ x ∈ free, p x = false :=
  ⟨cells.dropWhile p, List.takeWhile_append_dropWhile.symm, h⟩

theorem packed_of_free (h : ∀ x ∈ cells, p x = false) : Packed p cells :=
  packed_of_append (a := []) (by simp) h

theorem live_of_free (h : ∀ x ∈ cells, p x = false) : live p cells = [] :=
  live_of_append (a := []) (by simp) h

theorem Packed.filter_eq (h : Packed p cells) : cells.filter p = live p cells := by
  obtain ⟨free, hc, hfree⟩ := h.split
  have hlive : (live p cells).filter p = live p cells :=
    List.filter_eq_self.mpr fun x hx => live_pos hx
  have hnone : free.filter p = [] := List.filter_eq_nil_iff.mpr (by simpa using hfree)
  calc cells.filter p = (live p cells ++ free).filter p := congrArg _ hc
    _ = live p cells := by rw [List.filter_append, hlive, hnone, List.append_nil]

theorem getElem_live (h : i < (live p cells).length) (hc : i < cells.length) :
    (live p cells)[i] = cells[i] :=
  (List.takeWhile_prefix p).getElem h

theorem Packed.pos_iff (hp : Packed p cells) (h : i < cells.length) :
    p cells[i] = true ↔ i < (live p cells).length := by
  constructor
  · intro hi
    by_contra hn
    obtain ⟨free, hc, hfree⟩ := hp.split
    have hmem : cells[i] ∈ free := by
      rw [List.getElem_of_eq hc, List.getElem_append_right (by omega)]
      exact List.getElem_mem _
    simp [hfree _ hmem] at hi
  · intro hi
    rw [← getElem_live hi h]
    exact live_pos (List.getElem_mem hi)

theorem packed_iff_exists : Packed p cells ↔
    ∃ n, n ≤ cells.length ∧ ∀ (i : Nat) (h : i < cells.length), p cells[i] = true ↔ i < n := by
  constructor
  · intro hp
    exact ⟨_, live_length_le p cells, fun i h => hp.pos_iff h⟩
  · rintro ⟨n, hn, hi⟩
    rw [← List.take_append_drop n cells]
    refine packed_of_append ?_ ?_
    · intro x hx
      obtain ⟨i, h, rfl⟩ := List.mem_iff_getElem.mp hx
      rw [List.length_take] at h
      rw [List.getElem_take]
      exact (hi i (by omega)).mpr (by omega)
    · intro x hx
      obtain ⟨i, h, rfl⟩ := List.mem_iff_getElem.mp hx
      rw [List.length_drop] at h
      rw [List.getElem_drop, Bool.eq_false_iff, ne_eq, hi (n + i) (by omega)]
      omega

theorem Packed.set (hp : Packed p cells) (hn : (live p cells).length < cells.length)
    (hx : p x = true) :
    Packed p (cells.set (live p cells).length x) ∧
      live p (cells.set (live p cells).length x) = live p cells ++ [x] := by
  obtain ⟨free, hc, hfree⟩ := hp.split
  cases free with
  | nil =>
    rw [List.append_nil] at hc
    rw [← hc] at hn
    exact absurd hn (lt_irrefl _)
  | cons y free =>
    have hset : cells.set (live p cells).length x = (live p cells ++ [x]) ++ free := by
      nth_rewrite 1 [hc]
      simp
    have hpos : ∀ z ∈ live p cells ++ [x], p z = true := by
      intro z hz
      rcases List.mem_append.mp hz with hz | hz
      · exact live_pos hz
      · rw [List.mem_singleton.mp hz, hx]
    have hneg : ∀ z ∈ free, p z = false := fun z hz => hfree z (List.mem_cons_of_mem _ hz)
    rw [hset]
    exact ⟨packed_of_append hpos hneg, live_of_append hpos hneg⟩

theorem Packed.erase (hp : Packed p cells) (hi : i < (live p cells).length) (hx : p x = false) :
    Packed p (cells.eraseIdx i ++ [x]) ∧
      live p (cells.eraseIdx i ++ [x]) = (live p cells).eraseIdx i := by
  obtain ⟨free, hc, hfree⟩ := hp.split
  have herase : cells.eraseIdx i ++ [x] = (live p cells).eraseIdx i ++ (free ++ [x]) := by
    nth_rewrite 1 [hc]
    rw [List.eraseIdx_append_of_lt_length hi, List.append_assoc]
  have hpos : ∀ z ∈ (live p cells).eraseIdx i, p z = true :=
    fun z hz => live_pos (List.mem_of_mem_eraseIdx hz)
  have hneg : ∀ z ∈ free ++ [x], p z = false := by
    intro z hz
    rcases List.mem_append.mp hz with hz | hz
    · exact hfree z hz
    · rw [List.mem_singleton.mp hz, hx]
  rw [herase]
  exact ⟨packed_of_append hpos hneg, live_of_append hpos hneg⟩

theorem Packed.set_free (hp : Packed p cells) (hn : (live p cells).length ≤ n)
    (hx : p x = false) :
    Packed p (cells.set n x) ∧ live p (cells.set n x) = live p cells := by
  obtain ⟨free, hc, hfree⟩ := hp.split
  have hset : cells.set n x = live p cells ++ free.set (n - (live p cells).length) x := by
    nth_rewrite 1 [hc]
    rw [List.set_append_right _ _ hn]
  have hneg : ∀ z ∈ free.set (n - (live p cells).length) x, p z = false := by
    intro z hz
    rcases List.mem_or_eq_of_mem_set hz with hz | rfl
    · exact hfree z hz
    · exact hx
  rw [hset]
  exact ⟨packed_of_append (fun _ => live_pos) hneg, live_of_append (fun _ => live_pos) hneg⟩

theorem Packed.erase_free (hp : Packed p cells) (hi : (live p cells).length ≤ i)
    (hx : p x = false) :
    Packed p (cells.eraseIdx i ++ [x]) ∧ live p (cells.eraseIdx i ++ [x]) = live p cells := by
  obtain ⟨free, hc, hfree⟩ := hp.split
  have herase : cells.eraseIdx i ++ [x] =
      live p cells ++ (free.eraseIdx (i - (live p cells).length) ++ [x]) := by
    nth_rewrite 1 [hc]
    rw [List.eraseIdx_append_of_length_le hi, List.append_assoc]
  have hneg : ∀ z ∈ free.eraseIdx (i - (live p cells).length) ++ [x], p z = false := by
    intro z hz
    rcases List.mem_append.mp hz with hz | hz
    · exact hfree z (List.mem_of_mem_eraseIdx hz)
    · rw [List.mem_singleton.mp hz, hx]
  rw [herase]
  exact ⟨packed_of_append (fun _ => live_pos) hneg, live_of_append (fun _ => live_pos) hneg⟩

end BenchHashmaps.Lib
