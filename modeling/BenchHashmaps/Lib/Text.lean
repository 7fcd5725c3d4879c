import Mathlib.Algebra.Ring.Nat
import Mathlib.Data.List.DropRight
import Mathlib.Data.List.Forall2

/-!
# Padded and fenced text

Cells are padded with a blank and a line of them is fenced with a separator.
The cells can be read back when neither occurs in them, and the separators
stand where the widths of the cells say.
-/

namespace BenchHashmaps.Lib

variable {α : Type*}

-- ---------------------------------------------------------------------------
-- Optional parts
-- ---------------------------------------------------------------------------

theorem mapM_eq_some {β : Type*} {f : α → Option β} {l : List α} {bs : List β} :
    l.mapM f = some bs ↔ List.Forall₂ (fun a b => f a = some b) l bs := by
  induction l generalizing bs with
  | nil => simp [eq_comm]
  | cons a l ih =>
    rw [List.mapM_cons, List.forall₂_cons_left_iff]
    cases hf : f a with
    | none => simp
    | some b =>
      cases hl : l.mapM f with
      | none =>
        have hnone : ∀ u, ¬ List.Forall₂ (fun a b => f a = some b) l u := by
          intro u hu
          rw [← ih, hl] at hu
          cases hu
        simp [hnone]
      | some cs =>
        have hsome : ∀ u, List.Forall₂ (fun a b => f a = some b) l u ↔ cs = u := by
          intro u
          rw [← ih, hl, Option.some.injEq]
        simp [hsome, eq_comm]

theorem mapM_some {β : Type*} {f : α → Option β} {g : α → β} {l : List α}
    (h : ∀ a ∈ l, f a = some (g a)) : l.mapM f = some (l.map g) := by
  rw [mapM_eq_some, List.forall₂_map_right_iff, List.forall₂_same]
  exact h

theorem mapM_isSome {β : Type*} {f : α → Option β} {l : List α} :
    (l.mapM f).isSome ↔ ∀ a ∈ l, (f a).isSome := by
  induction l with
  | nil => simp
  | cons a l ih =>
    rw [List.mapM_cons, List.forall_mem_cons, ← ih]
    cases f a with
    | none => simp
    | some b => cases l.mapM f <;> simp

theorem mapM_mem {β : Type*} {f : α → Option β} {l : List α} {bs : List β}
    (h : l.mapM f = some bs) :
    (∀ a ∈ l, ∃ b ∈ bs, f a = some b) ∧ ∀ b ∈ bs, ∃ a ∈ l, f a = some b := by
  have hall := mapM_eq_some.mp h
  clear h
  induction hall with
  | nil => exact ⟨nofun, nofun⟩
  | @cons a b l bs hab _ ih =>
    constructor
    · refine List.forall_mem_cons.mpr ⟨⟨b, List.mem_cons_self, hab⟩, fun a' ha' => ?_⟩
      obtain ⟨b', hb', h⟩ := ih.1 a' ha'
      exact ⟨b', List.mem_cons_of_mem b hb', h⟩
    · refine List.forall_mem_cons.mpr ⟨⟨a, List.mem_cons_self, hab⟩, fun b' hb' => ?_⟩
      obtain ⟨a', ha', h⟩ := ih.2 b' hb'
      exact ⟨a', List.mem_cons_of_mem a ha', h⟩

theorem mapM_mapM {β γ : Type*} {f : α → Option β} {g : β → Option γ} {l : List α} {bs : List β}
    {cs : List γ} (hf : l.mapM f = some bs) (hg : bs.mapM g = some cs) :
    List.Forall₂ (fun a c => ∃ b ∈ bs, f a = some b ∧ g b = some c) l cs := by
  rw [mapM_eq_some] at hf hg
  induction hf generalizing cs with
  | nil =>
    cases hg
    exact .nil
  | @cons a b l bs hab _ ih =>
    cases hg with
    | cons hbc hg =>
      refine .cons ⟨b, List.mem_cons_self, hab, hbc⟩ ((ih hg).imp ?_)
      rintro a c ⟨b', hb', h⟩
      exact ⟨b', List.mem_cons_of_mem b hb', h⟩

theorem mapM_forall {β : Type*} {f : α → Option β} {l : List α} {bs : List β}
    (h : l.mapM f = some bs) {p : α → Prop} {q : β → Prop}
    (hpq : ∀ a b, f a = some b → (p a ↔ q b)) : (∀ a ∈ l, p a) ↔ ∀ b ∈ bs, q b := by
  have hall := mapM_eq_some.mp h
  clear h
  induction hall with
  | nil => exact iff_of_true nofun nofun
  | cons hab _ ih =>
    rw [List.forall_mem_cons, List.forall_mem_cons]
    exact and_congr (hpq _ _ hab) ih

theorem mapM_map_eq {β δ : Type*} {f : α → Option β} {l : List α} {bs : List β}
    (h : l.mapM f = some bs) {p : α → δ} {q : β → δ} (hpq : ∀ a b, f a = some b → q b = p a) :
    bs.map q = l.map p := by
  have hall := mapM_eq_some.mp h
  clear h
  induction hall with
  | nil => rfl
  | cons hab _ ih => rw [List.map_cons, List.map_cons, hpq _ _ hab, ih]

-- ---------------------------------------------------------------------------
-- Padding
-- ---------------------------------------------------------------------------

def strip [DecidableEq α] (blank : α) (l : List α) : List α :=
  (l.dropWhile (· == blank)).rdropWhile (· == blank)

theorem rdropWhile_pad [DecidableEq α] {l : List α} (h : blank ∉ l) (n : Nat) :
    (l ++ List.replicate n blank).rdropWhile (· == blank) = l := by
  induction n with
  | zero =>
    rw [List.replicate_zero, List.append_nil, List.rdropWhile_eq_self_iff]
    intro hne heq
    exact h (beq_iff_eq.mp heq ▸ List.getLast_mem hne)
  | succ n ih =>
    rw [List.replicate_succ', ← List.append_assoc, List.rdropWhile_concat_pos _ _ _ (by simp), ih]

theorem strip_pad [DecidableEq α] {l : List α} (h : blank ∉ l) (m n : Nat) :
    strip blank (List.replicate m blank ++ l ++ List.replicate n blank) = l := by
  rw [strip, List.append_assoc, List.dropWhile_append_of_pos fun a ha => by
    rw [List.eq_of_mem_replicate ha, beq_self_eq_true]]
  cases l with
  | nil =>
    have hall : (List.replicate n blank).dropWhile (· == blank) = [] := by
      rw [List.dropWhile_eq_nil_iff]
      exact fun a ha => by rw [List.eq_of_mem_replicate ha, beq_self_eq_true]
    rw [List.nil_append, hall, List.rdropWhile_nil]
  | cons a l =>
    have ha : a ≠ blank := fun heq => h (heq ▸ List.mem_cons_self)
    rw [List.cons_append, List.dropWhile_cons_of_neg (by simpa using ha), ← List.cons_append,
      rdropWhile_pad h]

-- ---------------------------------------------------------------------------
-- Fences
-- ---------------------------------------------------------------------------

/-- A separator before each part and one after the last. -/
def fenced (sep : α) (parts : List (List α)) : List α := parts.flatMap (sep :: ·) ++ [sep]

theorem mem_intercalate {sep : List α} {parts : List (List α)} (h : c ∈ sep.intercalate parts) :
    c ∈ sep ∨ ∃ part ∈ parts, c ∈ part := by
  induction parts with
  | nil => cases h
  | cons part parts ih =>
    cases parts with
    | nil =>
      rw [List.intercalate_singleton] at h
      exact .inr ⟨part, List.mem_cons_self, h⟩
    | cons next rest =>
      rw [List.intercalate_cons_cons, List.append_assoc, List.mem_append, List.mem_append] at h
      rcases h with h | h | h
      · exact .inr ⟨part, List.mem_cons_self, h⟩
      · exact .inl h
      · exact (ih h).imp_right fun ⟨p, hp, hc⟩ => ⟨p, List.mem_cons_of_mem part hp, hc⟩

def fields [DecidableEq α] (sep : α) (l : List α) : List (List α) := l.tail.dropLast.splitOn sep

theorem fenced_eq (sep : α) {parts : List (List α)} (h : parts ≠ []) :
    fenced sep parts = sep :: ([sep].intercalate parts ++ [sep]) := by
  induction parts with
  | nil => exact absurd rfl h
  | cons part parts ih =>
    cases parts with
    | nil => simp [fenced]
    | cons next rest =>
      have hrest :
          fenced sep (part :: next :: rest) = sep :: part ++ fenced sep (next :: rest) := by
        simp [fenced]
      rw [hrest, ih (List.cons_ne_nil _ _), List.intercalate_cons_cons]
      simp

theorem fields_fenced [DecidableEq α] {parts : List (List α)} (hne : parts ≠ [])
    (h : ∀ part ∈ parts, sep ∉ part) : fields sep (fenced sep parts) = parts := by
  rw [fenced_eq sep hne, fields, List.tail_cons, List.dropLast_concat,
    List.splitOn_intercalate sep h hne]

/-- Where the fence in front of the `k`-th part stands. -/
def fenceAt (widths : List Nat) (k : Nat) : Nat := ((widths.take k).map (· + 1)).sum

theorem length_fenced (sep : α) (parts : List (List α)) :
    (fenced sep parts).length = fenceAt (parts.map List.length) parts.length + 1 := by
  rw [fenced, List.length_append, List.length_flatMap, fenceAt,
    List.take_of_length_le (by rw [List.length_map]), List.map_map]
  rfl

theorem getElem?_fenced (sep : α) (parts : List (List α)) (hk : k ≤ parts.length) :
    (fenced sep parts)[fenceAt (parts.map List.length) k]? = some sep := by
  induction parts generalizing k with
  | nil =>
    obtain rfl := Nat.le_zero.mp hk
    rfl
  | cons part parts ih =>
    cases k with
    | zero => rfl
    | succ k =>
      have hrest : fenced sep (part :: parts) = (sep :: part) ++ fenced sep parts := by
        simp [fenced]
      have hat : fenceAt ((part :: parts).map List.length) (k + 1) =
          (sep :: part).length + fenceAt (parts.map List.length) k := by
        simp [fenceAt]
      rw [hrest, hat, List.getElem?_append_right (Nat.le_add_right _ _), Nat.add_sub_cancel_left,
        ih (Nat.le_of_succ_le_succ hk)]

end BenchHashmaps.Lib
