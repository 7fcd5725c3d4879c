import BenchHashmaps.Boost.Reachable

/-!
# Reserved room

Every operation but `erase` leaves the maximum load that belongs to the
capacity. On such a table `reserve(n)` makes room for `n` elements: no
`emplace` asks for memory again before there are that many.
-/

namespace BenchHashmaps.Boost.Table

open Lib (Run bind_ok exists_ok)
open Group15 (Layout)

variable {γ K V : Type} [Group15 γ] [Layout γ] {P : Policy K V} {fuel : Nat}
  {t t' t'' : Table γ K V}

theorem Ok.reserve_room (h : t.Ok P) (hu : t.Undrifted) (al : Allocator P.sizeofValue)
    (hfits : (Op.reserve n : Op K V).Fits P) (hn : n ≠ 0) (hfuel : 2 ^ 64 ≤ fuel) :
    t.reserve P al fuel n = .error (.badAlloc, t) ∨
      ∃ t' level, t.reserve P al fuel n = .ok t' ∧ t'.Filled P level ∧
        t'.contents = t.contents ∧ n.toNat ≤ t'.ml.toNat := by
  obtain ⟨m, hm, hmfits⟩ := hfits
  rcases h.reserve_spec al hm hmfits hfuel with hbad | ⟨t', ht', hre⟩
  · exact .inl hbad
  · right
    have hpos : 1 ≤ n.toNat := by
      by_contra hzero
      exact hn (UInt64.toNat_inj.mp (by simpa using hzero))
    have hmne : m ≠ 0 := by
      rintro rfl
      exact absurd (one_le_sizeForLoad hm hpos) (by decide)
    obtain ⟨level, hfilled, hroom⟩ := hre.room hmne
    have hml : t'.ml = initialMaxLoad t'.capacity := hre.ml.elim (fun heq => heq ▸ hu) id
    refine ⟨t', level, ht', hfilled, hre.contents, ?_⟩
    rw [hml]
    exact (load_le hm hfilled.arrays hroom).1

variable [DecidableEq K]

-- ---------------------------------------------------------------------------
-- The maximum load
-- ---------------------------------------------------------------------------

theorem Ok.step_undrifted (h : t.Ok P) (hu : t.Undrifted) (hs : Step P fuel t i t')
    (hthrow : KeepsOnThrow t i t') (hfits : i.1.op.Fits P) (hkeep : ∀ x, i.1.op ≠ .erase x)
    (hfuel : 2 ^ 64 ≤ fuel) : t'.Undrifted := by
  cases hs with
  | throws _ => exact (hthrow rfl) ▸ hu
  | @returns call t' answer hret =>
    obtain ⟨op, al⟩ := call
    have hresized : ∀ {n t₁}, Resized P n t t₁ → t₁.Undrifted :=
      fun hre => hre.ml.elim (fun heq => heq ▸ hu) id
    cases op with
    | erase x => exact absurd rfl (hkeep x)
    | emplace e =>
      obtain ⟨r, hr, hret⟩ := bind_ok.mp hret
      rcases h.emplace_spec al e hfuel with ⟨hbad, -⟩ | ⟨r', hr', hspec⟩
      · cases hbad.symm.trans hr
      · cases hr'.symm.trans hr
        cases hspec with
        | found _ _ => cases hret; exact hu
        | inserted _ _ _ _ hml => cases hret; exact hml hu
    | clear =>
      obtain ⟨t₁, ht₁, hret⟩ := bind_ok.mp hret
      obtain ⟨t₂, ht₂, -, -, hml⟩ := h.clear_spec
      cases ht₂.symm.trans ht₁
      cases hret
      exact hml
    | rehash n =>
      obtain ⟨t₁, ht₁, hret⟩ := bind_ok.mp hret
      rcases h.rehash_spec al hfits hfuel with hbad | ⟨t₂, ht₂, hre⟩
      · cases hbad.symm.trans ht₁
      · cases ht₂.symm.trans ht₁
        cases hret
        exact hresized hre
    | reserve n =>
      obtain ⟨m, hm, hmfits⟩ := hfits
      obtain ⟨t₁, ht₁, hret⟩ := bind_ok.mp hret
      rcases h.reserve_spec al hm hmfits hfuel with hbad | ⟨t₂, ht₂, hre⟩
      · cases hbad.symm.trans ht₁
      · cases ht₂.symm.trans ht₁
        cases hret
        exact hresized hre

theorem run_undrifted (hr : Run (Step P fuel) (empty : Table γ K V) calls t)
    (hfits : ∀ i ∈ calls, i.1.op.Fits P) (hkeep : ∀ i ∈ calls, ∀ x, i.1.op ≠ .erase x)
    (hfuel : 2 ^ 64 ≤ fuel) : t.Ok P ∧ t.Undrifted := by
  let I : List (Call P × Answer) → Table γ K V → Prop := fun rest t =>
    (∀ i ∈ rest, i.1.op.Fits P ∧ ∀ x, i.1.op ≠ .erase x) ∧ (∃ M, Refines P t M) ∧ t.Undrifted
  have hstep : ∀ t i rest t', I (i :: rest) t → Step P fuel t i t' → I rest t' := by
    rintro t i rest t' ⟨hrest, ⟨M, h⟩, hu⟩ hs
    obtain ⟨hf, hk⟩ := hrest i List.mem_cons_self
    obtain ⟨hthrow, M', -, h'⟩ := h.step hs hf hfuel
    exact ⟨fun j hj => hrest j (List.mem_cons_of_mem i hj), ⟨M', h'⟩,
      h.ok.step_undrifted hu hs hthrow hf hk hfuel⟩
  obtain ⟨-, ⟨M, h⟩, hu⟩ := hr.keeps I hstep
    ⟨fun i hi => ⟨hfits i hi, hkeep i hi⟩, ⟨∅, empty_refines⟩, rfl⟩
  exact ⟨h.ok, hu⟩

-- ---------------------------------------------------------------------------
-- Emplacing
-- ---------------------------------------------------------------------------

theorem Filled.step_in_place (h : t.Filled P level) (hlt : t.size.toNat < t.ml.toNat)
    (hs : Step P fuel t i t') (he : i.1.op = .emplace e) (hfuel : 2 ^ 64 ≤ fuel) :
    i.2 ≠ .badAlloc ∧ t'.Filled P level ∧ t'.ml = t.ml ∧ t'.size.toNat ≤ t.size.toNat + 1 := by
  have hexec : ∀ call : Call P, call.op = .emplace e → ∃ inserted t₁,
      call.exec fuel t = .ok (t₁, .emplaced inserted) ∧ t₁.Filled P level ∧ t₁.ml = t.ml ∧
        t₁.size.toNat ≤ t.size.toNat + 1 := by
    rintro ⟨op, al⟩ rfl
    obtain ⟨⟨t₁, loc, inserted⟩, hr, -, hfilled, hml, hsize⟩ :=
      h.emplace_in_place al e (UInt64.lt_iff_toNat_lt.mpr hlt) hfuel
    refine ⟨inserted, t₁, ?_, hfilled, hml, hsize⟩
    change (t.emplace P al fuel e >>= _) = _
    rw [hr]
    rfl
  cases hs with
  | throws hthrow =>
    obtain ⟨inserted, t₁, hok, -⟩ := hexec _ he
    cases hok.symm.trans hthrow
  | returns hret =>
    obtain ⟨inserted, t₁, hok, hfilled⟩ := hexec _ he
    cases hok.symm.trans hret
    exact ⟨nofun, hfilled⟩

theorem Filled.run_in_place (h : t.Filled P level) (hr : Run (Step P fuel) t calls t')
    (hroom : t.size.toNat + calls.length ≤ t.ml.toNat)
    (he : ∀ i ∈ calls, ∃ e, i.1.op = .emplace e) (hfuel : 2 ^ 64 ≤ fuel) :
    (∀ i ∈ calls, i.2 ≠ .badAlloc) ∧ t'.Filled P level := by
  induction hr with
  | nil => exact ⟨nofun, h⟩
  | @cons t i t₁ calls t' hs _ ih =>
    rw [List.length_cons] at hroom
    obtain ⟨e, hop⟩ := he i List.mem_cons_self
    obtain ⟨hret, hfilled, hml, hsize⟩ := h.step_in_place (by omega) hs hop hfuel
    obtain ⟨hrest, hlast⟩ := ih hfilled (by rw [hml]; omega)
      fun j hj => he j (List.mem_cons_of_mem i hj)
    exact ⟨List.forall_mem_cons.mpr ⟨hret, hrest⟩, hlast⟩

/-- After any calls but `erase`, `reserve(n)` either throws or makes room: while
the elements and the calls to come are at most `n`, no `emplace` throws or
rehashes, even when no more memory can be had. -/
theorem run_reserved (hr : Run (Step P fuel) (empty : Table γ K V) calls t)
    (hfits : ∀ i ∈ calls, i.1.op.Fits P) (hkeep : ∀ i ∈ calls, ∀ x, i.1.op ≠ .erase x)
    (al : Allocator P.sizeofValue) (hn : (Op.reserve n : Op K V).Fits P)
    (hfuel : 2 ^ 64 ≤ fuel) :
    t.reserve P al fuel n = .error (.badAlloc, t) ∨
      ∃ t', t.reserve P al fuel n = .ok t' ∧ t'.contents = t.contents ∧
        ∀ emplaces t'', Run (Step P fuel) t' emplaces t'' →
          (∀ i ∈ emplaces, ∃ e, i.1.op = .emplace e) →
          t'.size.toNat + emplaces.length ≤ n.toNat →
          (∀ i ∈ emplaces, i.2 ≠ .badAlloc) ∧ t''.capacity = t'.capacity := by
  obtain ⟨hok, hu⟩ := run_undrifted hr hfits hkeep hfuel
  by_cases hzero : n = 0
  · subst hzero
    obtain ⟨m, hm, hmfits⟩ := hn
    rcases hok.reserve_spec al hm hmfits hfuel with hbad | ⟨t', ht', hre⟩
    · exact .inl hbad
    · refine .inr ⟨t', ht', hre.contents, fun emplaces t'' hrun _ hlen => ?_⟩
      have hnil : emplaces = [] :=
        List.length_eq_zero_iff.mp (Nat.le_zero.mp (Nat.le_of_add_left_le hlen))
      subst hnil
      cases hrun
      exact ⟨nofun, rfl⟩
  · rcases hok.reserve_room hu al hn hzero hfuel with hbad | ⟨t', level, ht', h, hc, hroom⟩
    · exact .inl hbad
    · refine .inr ⟨t', ht', hc, fun emplaces t'' hrun hop hlen => ?_⟩
      obtain ⟨hret, hlast⟩ := h.run_in_place hrun (by omega) hop hfuel
      exact ⟨hret, UInt64.toNat_inj.mp
        (hlast.arrays.capacity_eq.trans h.arrays.capacity_eq.symm)⟩

theorem reserved_forty : ∃ (t t' : Table Sse2 UInt64 UInt64),
    Run (Step wordPolicy (2 ^ 64)) empty [(⟨.emplace (1, 10), .ample 16⟩, .emplaced true),
      (⟨.emplace (2, 20), .exhausted 16⟩, .emplaced true)] t ∧
    t.reserve wordPolicy (.ample 16) (2 ^ 64) 40 = .ok t' ∧ t'.contents = t.contents ∧
      ∀ emplaces t'', Run (Step wordPolicy (2 ^ 64)) t' emplaces t'' →
        (∀ i ∈ emplaces, ∃ e, i.1.op = .emplace e) →
        t'.size.toNat + emplaces.length ≤ 40 →
        (∀ i ∈ emplaces, i.2 ≠ .badAlloc) ∧ t''.capacity = t'.capacity := by
  have hload : sizeForLoad 40 = .ok 46 := by decide +kernel
  have hfits : (Op.reserve 40 : Op UInt64 UInt64).Fits wordPolicy :=
    ⟨46, hload, by unfold Policy.Fits; decide⟩
  let trace : List (Call wordPolicy × Answer) :=
    [(⟨.emplace (1, 10), .ample 16⟩, .emplaced true),
      (⟨.emplace (2, 20), .exhausted 16⟩, .emplaced true)]
  have hrun : ((replay (2 ^ 64) (empty : Table Sse2 UInt64 UInt64) trace).any fun t =>
      (t.reserve wordPolicy (.ample 16) (2 ^ 64) 40).isOk) = true := by
    decide +kernel
  obtain ⟨t, ht, hok⟩ := (Option.any_eq_true _ _).mp hrun
  obtain ⟨t', ht'⟩ := exists_ok hok
  have hr : Run (Step wordPolicy (2 ^ 64)) empty trace t := run_iff_replay.mpr ht
  rcases run_reserved hr (by simp [trace, Op.Fits]) (by simp [trace]) (.ample 16) hfits le_rfl with
    hbad | ⟨t'', ht'', hc, hroom⟩
  · cases hbad.symm.trans ht'
  · exact ⟨t, t'', hr, ht'', hc, hroom⟩

end BenchHashmaps.Boost.Table
