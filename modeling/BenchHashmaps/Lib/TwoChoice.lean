import Mathlib.Data.List.Count
import Mathlib.Data.Multiset.Count
import Mathlib.Data.List.Nodup
import Mathlib.Data.List.Perm.Subperm

/-!
# Buckets filled by two choices

A table of buckets is a list of lists. An item has two candidate buckets and
goes to the end of the shorter one, the first on a tie. `Placed` says every
item sits in a candidate; `Balanced` says none sits deeper than the load of
its other candidate allows. The last section compares buckets of bounded
size with how many items compete for them.
-/

namespace BenchHashmaps.Lib

variable {β : Type*}

abbrev Buckets (β : Type*) := List (List β)

namespace Buckets

variable {B : Buckets β}

def nth (B : Buckets β) (i : Nat) : List β := B.getD i []

def push (B : Buckets β) (i : Nat) (e : β) : Buckets β := B.modify i (· ++ [e])

def removeAt (B : Buckets β) (i j : Nat) : Buckets β := B.modify i (·.eraseIdx j)

theorem nth_eq (h : i < B.length) : B.nth i = B[i] := by
  simp [nth, h]

theorem nth_modify : nth (B.modify i f) j =
    if i = j ∧ j < B.length then f (B.nth j) else B.nth j := by
  rw [nth, nth, List.getD_eq_getElem?_getD, List.getElem?_modify, List.getD_eq_getElem?_getD]
  by_cases hj : j < B.length
  · by_cases hij : i = j <;> simp [hj, hij]
  · simp [hj]

theorem mem_nth_push (h : x ∈ (B.push i e).nth j) : x ∈ B.nth j ∨ j = i ∧ x = e := by
  rw [push, nth_modify] at h
  split at h
  next hij =>
    rcases List.mem_append.mp h with h | h
    · exact .inl h
    · exact .inr ⟨hij.1.symm, List.mem_singleton.mp h⟩
  next => exact .inl h

theorem mem_nth_removeAt (h : x ∈ (B.removeAt i j).nth k) : x ∈ B.nth k := by
  rw [removeAt, nth_modify] at h
  split at h
  · exact List.mem_of_mem_eraseIdx h
  · exact h

theorem nth_getElem?_push {j : Nat} (h : ((B.push i e).nth k)[j]? = some x) :
    (B.nth k)[j]? = some x ∨ k = i ∧ j = (B.nth i).length ∧ x = e := by
  rw [push, nth_modify] at h
  split at h
  next hik =>
    obtain ⟨rfl, -⟩ := hik
    rcases Nat.lt_trichotomy j (B.nth i).length with hj | rfl | hj
    · rw [List.getElem?_append_left hj] at h
      exact .inl h
    · simp only [List.getElem?_concat_length, Option.some.injEq] at h
      exact .inr ⟨rfl, rfl, h.symm⟩
    · rw [List.getElem?_eq_none (by simp; omega)] at h
      cases h
  next => exact .inl h

theorem load_push_le : (B.nth j).length ≤ ((B.push i e).nth j).length := by
  rw [push, nth_modify]
  split <;> simp

theorem mem_flatten_iff : x ∈ B.flatten ↔ ∃ i, x ∈ B.nth i := by
  rw [List.mem_flatten]
  constructor
  · rintro ⟨b, hb, hx⟩
    obtain ⟨i, hi, rfl⟩ := List.mem_iff_getElem.mp hb
    exact ⟨i, by rwa [nth_eq hi]⟩
  · rintro ⟨i, hx⟩
    by_cases hi : i < B.length
    · exact ⟨B[i], List.getElem_mem hi, by rwa [nth_eq hi] at hx⟩
    · simp [nth, hi] at hx

theorem nth_sublist_flatten : (B.nth i).Sublist B.flatten := by
  by_cases hi : i < B.length
  · rw [nth_eq hi]
    exact List.sublist_flatten_of_mem (List.getElem_mem hi)
  · simp [nth, hi]

theorem lt_length_of_nth {n : Nat} (h : (B.nth b)[n]? = some x) : b < B.length := by
  by_contra hb
  simp [nth, hb] at h

theorem nth_map {γ : Type*} (f : β → γ) : nth (B.map (List.map f)) i = (B.nth i).map f := by
  by_cases hi : i < B.length <;> simp [nth, hi]

theorem nth_unique {n n' : Nat} (hn : B.flatten.Nodup) (h : (B.nth b)[n]? = some x)
    (h' : (B.nth b')[n']? = some x) : b = b' ∧ n = n' := by
  obtain ⟨hbucket, hdisj⟩ := List.nodup_flatten.mp hn
  have hb := lt_length_of_nth h
  have hb' := lt_length_of_nth h'
  have hx := List.mem_of_getElem? h
  have hx' := List.mem_of_getElem? h'
  rw [List.pairwise_iff_getElem] at hdisj
  rw [nth_eq hb] at h hx
  rw [nth_eq hb'] at h' hx'
  rcases Nat.lt_trichotomy b b' with hlt | rfl | hlt
  · exact absurd hx' (hdisj b b' hb hb' hlt hx)
  · have hlen := (List.getElem?_eq_some_iff.mp h).1
    exact ⟨rfl, (List.getElem?_inj hlen (hbucket _ (List.getElem_mem hb))).mp (h.trans h'.symm)⟩
  · exact absurd hx (hdisj b' b hb' hb hlt hx')

theorem flatten_split (h : i < B.length) :
    B.flatten = (B.take i).flatten ++ (B.nth i ++ (B.drop (i + 1)).flatten) := by
  rw [nth_eq h, ← List.flatten_cons, ← List.flatten_append, ← List.drop_eq_getElem_cons h,
    List.take_append_drop]

theorem flatten_modify (h : i < B.length) : (B.modify i f).flatten =
    (B.take i).flatten ++ (f (B.nth i) ++ (B.drop (i + 1)).flatten) := by
  rw [List.modify_eq_take_cons_drop h, List.flatten_append, List.flatten_cons, nth_eq h]

theorem flatten_push (h : i < B.length) : (B.push i e).flatten.Perm (e :: B.flatten) := by
  rw [push, flatten_modify h, flatten_split h, List.append_assoc, List.singleton_append]
  rw [← List.append_assoc, ← List.append_assoc (B.take i).flatten]
  exact List.perm_middle

theorem flatten_removeAt (h : i < B.length) (hj : j < (B.nth i).length) :
    B.flatten.Perm ((B.nth i)[j] :: (B.removeAt i j).flatten) := by
  rw [removeAt, flatten_modify h, flatten_split h]
  have hp : (B.nth i).Perm ((B.nth i)[j] :: (B.nth i).eraseIdx j) :=
    (List.getElem_cons_eraseIdx_perm hj).symm
  refine ((hp.append_right _).append_left _).trans ?_
  rw [List.cons_append]
  exact List.perm_middle

-- ---------------------------------------------------------------------------
-- Placement and balance
-- ---------------------------------------------------------------------------

section choice
variable (c₁ c₂ : β → Nat)

def Placed (B : Buckets β) : Prop := ∀ i, ∀ e ∈ B.nth i, i = c₁ e ∨ i = c₂ e

def choose (B : Buckets β) (e : β) : Nat :=
  if (B.nth (c₁ e)).length ≤ (B.nth (c₂ e)).length then c₁ e else c₂ e

def place (B : Buckets β) (e : β) : Buckets β := B.push (choose c₁ c₂ B e) e

structure Balanced (B : Buckets β) : Prop where
  first : ∀ e j, (B.nth (c₁ e))[j]? = some e → j ≤ (B.nth (c₂ e)).length
  second : ∀ e j, c₁ e ≠ c₂ e → (B.nth (c₂ e))[j]? = some e → j + 1 ≤ (B.nth (c₁ e)).length

theorem choose_eq (B : Buckets β) (e : β) : choose c₁ c₂ B e = c₁ e ∨ choose c₁ c₂ B e = c₂ e := by
  unfold choose
  split
  · exact .inl rfl
  · exact .inr rfl

variable {c₁ c₂}

theorem Placed.push (hp : Placed c₁ c₂ B) (hi : i = c₁ e ∨ i = c₂ e) :
    Placed c₁ c₂ (B.push i e) := by
  intro j x hx
  rcases mem_nth_push hx with hx | ⟨rfl, rfl⟩
  · exact hp j x hx
  · exact hi

theorem Placed.map {γ : Type*} {f : γ → β} {B : Buckets γ}
    (hp : Placed (fun e => c₁ (f e)) (fun e => c₂ (f e)) B) :
    Placed c₁ c₂ (B.map (List.map f)) := by
  intro i e he
  rw [nth_map, List.mem_map] at he
  obtain ⟨x, hx, rfl⟩ := he
  exact hp i x hx

theorem Placed.removeAt (hp : Placed c₁ c₂ B) : Placed c₁ c₂ (B.removeAt i j) :=
  fun k x hx => hp k x (mem_nth_removeAt hx)

theorem placed_of_empty (h : B.flatten = []) : Placed c₁ c₂ B := by
  intro i e he
  have := mem_flatten_iff.mpr ⟨i, he⟩
  simp [h] at this

theorem balanced_of_empty (h : B.flatten = []) : Balanced c₁ c₂ B := by
  have hn : ∀ i, B.nth i = [] := by
    intro i
    rw [List.eq_nil_iff_forall_not_mem]
    intro x hx
    have := mem_flatten_iff.mpr ⟨i, hx⟩
    simp [h] at this
  constructor <;> simp [hn]

/-- The new item is the deepest of its bucket, and its bucket was the
shorter one; every other item only sees loads grow. -/
theorem Balanced.place (hb : Balanced c₁ c₂ B) (e : β) : Balanced c₁ c₂ (B.place c₁ c₂ e) := by
  constructor
  · intro x j hx
    rcases nth_getElem?_push hx with hx | ⟨hc, rfl, rfl⟩
    · exact Nat.le_trans (hb.first x j hx) load_push_le
    · refine Nat.le_trans ?_ load_push_le
      unfold choose at hc ⊢
      split at hc
      next hle => rw [if_pos hle]; exact hle
      next hle => rw [if_neg hle]
  · intro x j hne hx
    rcases nth_getElem?_push hx with hx | ⟨hc, rfl, rfl⟩
    · exact Nat.le_trans (hb.second x j hne hx) load_push_le
    · refine Nat.le_trans ?_ load_push_le
      unfold choose at hc ⊢
      split at hc
      next => exact absurd hc.symm hne
      next hle => rw [if_neg hle]; exact Nat.lt_of_not_le hle

end choice

-- ---------------------------------------------------------------------------
-- Crowding
-- ---------------------------------------------------------------------------

section crowd
variable (c₁ c₂ : β → Nat)

/-- How many items of `L` have bucket `i` as a candidate, each counted once. -/
def crowd (L : Multiset β) (i : Nat) : Nat := L.countP fun e => i = c₁ e ∨ i = c₂ e

/-- Every item has a candidate that at most `n` items compete for. -/
def Uncrowded (n : Nat) (L : Multiset β) : Prop :=
  ∀ e ∈ L, crowd c₁ c₂ L (c₁ e) ≤ n ∨ crowd c₁ c₂ L (c₂ e) ≤ n

instance (n : Nat) (L : Multiset β) : Decidable (Uncrowded c₁ c₂ n L) :=
  inferInstanceAs (Decidable (∀ e ∈ L, _))

def Spread (n : Nat) (L : Multiset β) : Prop :=
  ∀ e ∈ L, crowd c₁ c₂ L (c₁ e) ≤ n ∧ crowd c₁ c₂ L (c₂ e) ≤ n

instance (n : Nat) (L : Multiset β) : Decidable (Spread c₁ c₂ n L) :=
  inferInstanceAs (Decidable (∀ e ∈ L, _))

/-- The items fit into `count` buckets of `n` cells, each in a candidate. -/
def Placeable (count n : Nat) (L : Multiset β) : Prop :=
  ∃ B : Buckets β, B.length = count ∧ (∀ b ∈ B, b.length ≤ n) ∧ Placed c₁ c₂ B ∧ ↑B.flatten = L

variable {c₁ c₂} {L : Multiset β}

/-- Pigeonhole: everything in a bucket competes for it. -/
theorem Placed.load_le_crowd (hp : Placed c₁ c₂ B) :
    (B.nth i).length ≤ crowd c₁ c₂ ↑B.flatten i := by
  calc (B.nth i).length = (B.nth i).countP fun e => i = c₁ e ∨ i = c₂ e := by
        rw [eq_comm, List.countP_eq_length]
        intro e he
        exact decide_eq_true (hp i e he)
    _ ≤ B.flatten.countP fun e => i = c₁ e ∨ i = c₂ e := nth_sublist_flatten.countP_le
    _ = crowd c₁ c₂ ↑B.flatten i := (Multiset.coe_countP _ _).symm

theorem Placed.load_lt (hp : Placed c₁ c₂ B) (hL : e ::ₘ ↑B.flatten ≤ L)
    (hi : i = c₁ e ∨ i = c₂ e) (hn : crowd c₁ c₂ L i ≤ n) : (B.nth i).length < n := by
  have hcons : crowd c₁ c₂ (e ::ₘ ↑B.flatten) i = crowd c₁ c₂ ↑B.flatten i + 1 :=
    Multiset.countP_cons_of_pos _ hi
  have hle : crowd c₁ c₂ (e ::ₘ ↑B.flatten) i ≤ crowd c₁ c₂ L i := Multiset.countP_le_of_le _ hL
  have := hp.load_le_crowd (i := i)
  omega

theorem uncrowded_of_crowd_le (h : ∀ i, crowd c₁ c₂ L i ≤ n) : Uncrowded c₁ c₂ n L :=
  fun e _ => .inl (h (c₁ e))

theorem Spread.crowd_le (h : Spread c₁ c₂ n L) (i : Nat) : crowd c₁ c₂ L i ≤ n := by
  by_cases hi : ∃ e ∈ L, i = c₁ e ∨ i = c₂ e
  · obtain ⟨e, he, rfl | rfl⟩ := hi
    · exact (h e he).1
    · exact (h e he).2
  · have hzero : crowd c₁ c₂ L i = 0 :=
      Multiset.countP_eq_zero.mpr fun e he hc => hi ⟨e, he, hc⟩
    rw [hzero]
    exact Nat.zero_le n

theorem Uncrowded.not_full (hu : Uncrowded c₁ c₂ n L) (hp : Placed c₁ c₂ B)
    (hL : e ::ₘ ↑B.flatten ≤ L) :
    (B.nth (c₁ e)).length < n ∨ (B.nth (c₂ e)).length < n := by
  rcases hu e (Multiset.mem_of_le hL (Multiset.mem_cons_self _ _)) with h | h
  · exact .inl (hp.load_lt hL (.inl rfl) h)
  · exact .inr (hp.load_lt hL (.inr rfl) h)

theorem Placed.length_le (hp : Placed c₁ c₂ B) (hi : ∀ e ∈ B.flatten, c₁ e = i ∧ c₂ e = i)
    (hn : ∀ b ∈ B, b.length ≤ n) : B.flatten.length ≤ n := by
  have hmem : ∀ j, ∀ e ∈ B.nth j, j = i := by
    intro j e he
    obtain ⟨h1, h2⟩ := hi e (mem_flatten_iff.mpr ⟨j, he⟩)
    rcases hp j e he with h | h
    · exact h.trans h1
    · exact h.trans h2
  by_cases h : i < B.length
  · have hrest : (B.modify i fun _ => []).flatten = [] := by
      rw [List.eq_nil_iff_forall_not_mem]
      intro e he
      obtain ⟨j, hj⟩ := mem_flatten_iff.mp he
      rw [nth_modify] at hj
      split at hj
      next => cases hj
      next hij =>
        obtain rfl := hmem j e hj
        exact hij ⟨rfl, h⟩
    rw [flatten_modify h, List.nil_append, List.append_eq_nil_iff] at hrest
    rw [flatten_split h, hrest.1, hrest.2, List.nil_append, List.append_nil, nth_eq h]
    exact hn _ (List.getElem_mem h)
  · have hnone : B.flatten = [] := by
      rw [List.eq_nil_iff_forall_not_mem]
      intro e he
      obtain ⟨j, hj⟩ := mem_flatten_iff.mp he
      obtain rfl := hmem j e hj
      simp [nth, h] at hj
    rw [hnone]
    exact Nat.zero_le n

end crowd

end Buckets

end BenchHashmaps.Lib
