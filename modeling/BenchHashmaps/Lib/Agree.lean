import BenchHashmaps.Lib.Runs
import Mathlib.Data.List.Forall2

/-!
# Computations that agree

Two fallible computations agree when both return related results or both fail
with related errors. Agreement goes through `>>=` and loops, so two versions of
a program need comparing only where they differ.
-/

namespace BenchHashmaps.Lib

variable {ε ε' α β α' β' ι : Type} {E : ε → ε' → Prop} {R : α → α' → Prop} {S : β → β' → Prop}

inductive Agree (E : ε → ε' → Prop) (R : α → α' → Prop) : Except ε α → Except ε' α' → Prop
  | ok : R a a' → Agree E R (.ok a) (.ok a')
  | error : E e e' → Agree E R (.error e) (.error e')

theorem Agree.refl (x : Except ε α) : Agree Eq Eq x x := by
  cases x with
  | ok a => exact .ok rfl
  | error e => exact .error rfl

theorem Agree.same (x : Except ε α) : Agree Eq (fun a a' => a = a' ∧ x = .ok a) x x := by
  cases x with
  | ok a => exact .ok ⟨rfl, rfl⟩
  | error e => exact .error rfl

theorem Agree.bind {x : Except ε α} {x' : Except ε' α'} {f : α → Except ε β}
    {f' : α' → Except ε' β'} (h : Agree E R x x') (hf : ∀ a a', R a a' → Agree E S (f a) (f' a')) :
    Agree E S (x >>= f) (x' >>= f') := by
  cases h with
  | ok hr => exact hf _ _ hr
  | error he => exact .error he

theorem Agree.bind_same {x : Except ε α} {f : α → Except ε β} {f' : α → Except ε β'}
    (hf : ∀ a, x = .ok a → Agree Eq S (f a) (f' a)) : Agree Eq S (x >>= f) (x >>= f') :=
  (Agree.same x).bind fun _ _ h => h.1 ▸ hf _ h.2

theorem Agree.foldlM {f : α → ι → Except ε α} {f' : α' → ι → Except ε' α'}
    (hstep : ∀ a a' i, R a a' → Agree E R (f a i) (f' a' i)) {l : List ι} {a : α} {a' : α'}
    (h : R a a') : Agree E R (l.foldlM f a) (l.foldlM f' a') := by
  induction l generalizing a a' with
  | nil => exact .ok h
  | cons i l ih =>
    rw [List.foldlM_cons, List.foldlM_cons]
    exact (hstep a a' i h).bind fun _ _ => ih

theorem Agree.mapError {δ δ' : Type} {D : δ → δ' → Prop} {f : ε → δ} {f' : ε' → δ'}
    {x : Except ε α} {x' : Except ε' α'} (h : Agree E R x x')
    (hf : ∀ e e', E e e' → D (f e) (f' e')) : Agree D R (x.mapError f) (x'.mapError f') := by
  cases h with
  | ok hr => exact .ok hr
  | error he => exact .error (hf _ _ he)

theorem Agree.eq {x x' : Except ε α} (h : Agree Eq Eq x x') : x = x' := by
  cases h with
  | ok heq => rw [heq]
  | error heq => rw [heq]

theorem Agree.of_ok {x : Except ε α} {x' : Except ε' α'} (h : Agree E R x x') (hx : x = .ok a) :
    ∃ a', x' = .ok a' ∧ R a a' := by
  cases h with
  | ok hr => cases hx; exact ⟨_, rfl, hr⟩
  | error he => cases hx

theorem Agree.of_error {x : Except ε α} {x' : Except ε' α'} (h : Agree E R x x')
    (hx : x = .error e) : ∃ e', x' = .error e' ∧ E e e' := by
  cases h with
  | ok hr => cases hx
  | error he => cases hx; exact ⟨_, rfl, he⟩

-- ---------------------------------------------------------------------------
-- Related lists
-- ---------------------------------------------------------------------------

open List (Forall₂)

variable {l : List α} {l' : List α'}

theorem forall₂_replicate (h : R a a') (n : Nat) :
    Forall₂ R (List.replicate n a) (List.replicate n a') := by
  induction n with
  | zero => exact .nil
  | succ n ih => exact .cons h ih

theorem forall₂_set (h : Forall₂ R l l') (hr : R a a') (i : Nat) :
    Forall₂ R (l.set i a) (l'.set i a') := by
  induction h generalizing i with
  | nil => exact .nil
  | cons hb h ih =>
    cases i with
    | zero => exact .cons hr h
    | succ i => exact .cons hb (ih i)

theorem forall₂_modify {f : α → α} {f' : α' → α'} (h : Forall₂ R l l')
    (hf : ∀ a a', R a a' → R (f a) (f' a')) (i : Nat) :
    Forall₂ R (l.modify i f) (l'.modify i f') := by
  induction h generalizing i with
  | nil => cases i <;> exact .nil
  | cons hb h ih =>
    cases i with
    | zero => exact .cons (hf _ _ hb) h
    | succ i => exact .cons hb (ih i)

theorem forall₂_getElem? (h : Forall₂ R l l') (i : Nat) :
    l[i]? = none ∧ l'[i]? = none ∨ ∃ a a', l[i]? = some a ∧ l'[i]? = some a' ∧ R a a' := by
  induction h generalizing i with
  | nil => exact .inl ⟨rfl, rfl⟩
  | cons hb h ih =>
    cases i with
    | zero => exact .inr ⟨_, _, rfl, rfl, hb⟩
    | succ i => exact ih i

end BenchHashmaps.Lib
