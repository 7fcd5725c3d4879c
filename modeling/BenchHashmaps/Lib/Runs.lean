import Mathlib.Data.List.Basic

/-!
# Runs of a step relation and loops with fuel

`Run` chains a step relation over a list of inputs. A loop that folds a
fallible body over a list is such a run, so one induction serves both whole
executions and the loops inside one call.

Computations with fuel are families that keep their result when fuel is
added. A loop over such a body returns with some fuel when every iteration
does.
-/

namespace BenchHashmaps.Lib

variable {σ ι ε : Type*}

-- ---------------------------------------------------------------------------
-- Fallible computations
-- ---------------------------------------------------------------------------

theorem bind_ok {x : Except ε α} {f : α → Except ε β} :
    x >>= f = .ok b ↔ ∃ a, x = .ok a ∧ f a = .ok b := by
  cases x <;> simp [bind, Except.bind]

theorem bind_error {x : Except ε α} {f : α → Except ε β} :
    x >>= f = .error e ↔ x = .error e ∨ ∃ a, x = .ok a ∧ f a = .error e := by
  cases x <;> simp [bind, Except.bind]

theorem ok_bind (a : α) (f : α → Except ε β) : Except.ok a >>= f = f a := rfl

theorem pure_ok : (pure a : Except ε α) = .ok b ↔ a = b := by
  simp [pure, Except.pure]

/-- Whether a closed computation returns can be decided by running it. -/
theorem exists_ok {x : Except ε α} (h : x.isOk = true) : ∃ a, x = .ok a := by
  cases x with
  | ok a => exact ⟨a, rfl⟩
  | error e => cases h

-- ---------------------------------------------------------------------------
-- Runs
-- ---------------------------------------------------------------------------

inductive Run (step : σ → ι → σ → Prop) : σ → List ι → σ → Prop
  | nil : Run step s [] s
  | cons : step s i mid → Run step mid is s' → Run step s (i :: is) s'

/-- `I rest s` may speak of the inputs still to come; a step consumes one. -/
theorem Run.keeps {step : σ → ι → σ → Prop} (I : List ι → σ → Prop)
    (hstep : ∀ s i rest s', I (i :: rest) s → step s i s' → I rest s')
    (hr : Run step s is s') (hs : I is s) : I [] s' := by
  induction hr with
  | nil => exact hs
  | cons h _ ih => exact ih (hstep _ _ _ _ hs h)

theorem Run.invariant {step : σ → ι → σ → Prop} (I : σ → Prop)
    (hstep : ∀ s i s', I s → step s i s' → I s')
    (hr : Run step s is s') (hs : I s) : I s' :=
  hr.keeps (fun _ => I) (fun s i _ s' => hstep s i s') hs

theorem Run.mono {step step' : σ → ι → σ → Prop} (h : ∀ s i s', step s i s' → step' s i s')
    (hr : Run step s is s') : Run step' s is s' := by
  induction hr with
  | nil => exact .nil
  | cons hs _ ih => exact .cons (h _ _ _ hs) ih

theorem Run.sim {τ : Type*} {a a' : τ} {step : σ → ι → σ → Prop} {step' : τ → ι → τ → Prop}
    (R : σ → τ → Prop)
    (hstep : ∀ s i s' a a', R s a → step s i s' → step' a i a' → R s' a')
    (hr : Run step s is s') (hr' : Run step' a is a') (hs : R s a) : R s' a' := by
  induction hr generalizing a with
  | nil =>
    cases hr'
    exact hs
  | cons h _ ih =>
    cases hr' with
    | cons h' hr' => exact ih hr' (hstep _ _ _ _ _ hs h h')

-- ---------------------------------------------------------------------------
-- Loops
-- ---------------------------------------------------------------------------

theorem foldlM_ok {f : σ → ι → Except ε σ} :
    is.foldlM f s = .ok s' ↔ Run (fun s i s' => f s i = .ok s') s is s' := by
  induction is generalizing s with
  | nil =>
    constructor
    · intro h
      cases pure_ok.mp h
      exact .nil
    · intro h
      cases h
      rfl
  | cons i is ih =>
    rw [List.foldlM_cons, bind_ok]
    constructor
    · rintro ⟨mid, h, hr⟩
      exact .cons h (ih.mp hr)
    · intro h
      cases h with
      | cons h hr => exact ⟨_, h, ih.mpr hr⟩

theorem foldlM_error {is : List ι} {f : σ → ι → Except ε σ} (h : is.foldlM f s = .error e) :
    ∃ i ∈ is, ∃ s, f s i = .error e := by
  induction is generalizing s with
  | nil => cases h
  | cons i is ih =>
    rw [List.foldlM_cons, bind_error] at h
    obtain h | ⟨mid, -, h⟩ := h
    · exact ⟨i, List.mem_cons_self, s, h⟩
    · obtain ⟨j, hj, s, h⟩ := ih h
      exact ⟨j, List.mem_cons_of_mem i hj, s, h⟩

def FuelMono (F : Nat → σ → ι → Except ε σ) : Prop :=
  ∀ n m s i s', n ≤ m → F n s i = .ok s' → F m s i = .ok s'

/-- Each iteration may need its own fuel; the loop needs the largest. -/
theorem foldlM_returns {F : Nat → σ → ι → Except ε σ} (mono : FuelMono F)
    (I : List ι → σ → Prop)
    (hstep : ∀ s i rest, I (i :: rest) s → ∃ n s', F n s i = .ok s' ∧ I rest s')
    (hs : I is s) : ∃ n s', is.foldlM (F n) s = .ok s' ∧ I [] s' := by
  induction is generalizing s with
  | nil => exact ⟨0, s, rfl, hs⟩
  | cons i is ih =>
    obtain ⟨n, mid, hn, hmid⟩ := hstep s i is hs
    obtain ⟨m, s', hm, hI⟩ := ih hmid
    refine ⟨max n m, s', ?_, hI⟩
    rw [List.foldlM_cons, bind_ok]
    refine ⟨mid, mono _ _ _ _ _ (Nat.le_max_left n m) hn, ?_⟩
    exact foldlM_ok.mpr ((foldlM_ok.mp hm).mono fun _ _ _ => mono _ _ _ _ _ (Nat.le_max_right n m))

theorem mapM_total {is : List ι} {f : ι → Except ε β} (P : ι → β → Prop)
    (h : ∀ i ∈ is, ∃ b, f i = .ok b ∧ P i b) : ∃ bs, is.mapM f = .ok bs ∧ List.Forall₂ P is bs := by
  induction is with
  | nil => exact ⟨[], rfl, .nil⟩
  | cons i is ih =>
    obtain ⟨b, hb, hP⟩ := h i (by simp)
    obtain ⟨bs, hbs, hPs⟩ := ih fun i hi => h i (by simp [hi])
    refine ⟨b :: bs, ?_, .cons hP hPs⟩
    rw [List.mapM_cons, hb, hbs]
    rfl

end BenchHashmaps.Lib
