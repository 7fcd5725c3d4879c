import BenchHashmaps.Boost.Reachable
import BenchHashmaps.Boost.Interleaved
import BenchHashmaps.Lib.Agree

/-!
# One table in two layouts

Which layout a group has depends on the target. Groups with the same logical
bytes answer every operation alike, and the table sees nothing else of them:
whatever is called, the tables of two targets hold the same elements in the
same slots and fail at the same calls.
-/

namespace BenchHashmaps.Boost

open Lib (Agree Run setBits mem_setBits countrZero testBit_countrZero forall₂_replicate forall₂_set
  forall₂_modify forall₂_getElem?)
open Group15 (Layout)

variable {γ γ' K V : Type} [Group15 γ] [Layout γ] [Group15 γ'] [Layout γ'] {P : Policy K V}

-- ---------------------------------------------------------------------------
-- Groups
-- ---------------------------------------------------------------------------

/-- Groups with the same logical bytes. -/
structure Group15.Same (g : γ) (g' : γ') : Prop where
  byte : ∀ i < N, Layout.byte g i = Layout.byte g' i
  overflowed : ∀ j < 8, Layout.overflowed g j = Layout.overflowed g' j

namespace Group15.Same

variable {g : γ} {g' : γ'}

theorem initialized : Same (initialized : γ) (Group15.initialized : γ') :=
  ⟨fun _ _ => by rw [Layout.byte_initialized, Layout.byte_initialized],
   fun _ _ => by rw [Layout.overflowed_initialized, Layout.overflowed_initialized]⟩

theorem dummyGroup : Same (dummyGroup : γ) (Group15.dummyGroup : γ') :=
  ⟨fun _ hi => by rw [Layout.byte_dummyGroup hi, Layout.byte_dummyGroup hi],
   fun _ hj => by rw [Layout.overflowed_dummyGroup hj, Layout.overflowed_dummyGroup hj]⟩

theorem set (h : Same g g') (hn : n < N) (hash : UInt64) :
    Same (Group15.set g n hash) (Group15.set g' n hash) :=
  ⟨fun i hi => by rw [Layout.byte_set hn hi, Layout.byte_set hn hi, h.byte i hi],
   fun j hj => by rw [Layout.overflowed_set hn hj, Layout.overflowed_set hn hj, h.overflowed j hj]⟩

theorem setSentinel (h : Same g g') : Same (setSentinel g) (Group15.setSentinel g') :=
  ⟨fun i hi => by rw [Layout.byte_setSentinel hi, Layout.byte_setSentinel hi, h.byte i hi],
   fun j hj => by
    rw [Layout.overflowed_setSentinel hj, Layout.overflowed_setSentinel hj, h.overflowed j hj]⟩

theorem reset (h : Same g g') (hn : n < N) : Same (Group15.reset g n) (Group15.reset g' n) :=
  ⟨fun i hi => by rw [Layout.byte_reset hn hi, Layout.byte_reset hn hi, h.byte i hi],
   fun j hj => by
    rw [Layout.overflowed_reset hn hj, Layout.overflowed_reset hn hj, h.overflowed j hj]⟩

theorem markOverflow (h : Same g g') (hash : UInt64) :
    Same (markOverflow g hash) (Group15.markOverflow g' hash) :=
  ⟨fun i hi => by rw [Layout.byte_markOverflow hi, Layout.byte_markOverflow hi, h.byte i hi],
   fun j hj => by
    rw [Layout.overflowed_markOverflow hj, Layout.overflowed_markOverflow hj, h.overflowed j hj]⟩

theorem mask_eq (h : Same g g') {p : UInt8 → Bool} {m m' : UInt32}
    (hm : ∀ i, m.toNat.testBit i = (decide (i < N) && p (Layout.byte g i)))
    (hm' : ∀ i, m'.toNat.testBit i = (decide (i < N) && p (Layout.byte g' i))) : m = m' := by
  refine UInt32.toNat_inj.mp (Nat.eq_of_testBit_eq fun i => ?_)
  rw [hm, hm']
  by_cases hi : i < N
  · rw [h.byte i hi]
  · rw [decide_eq_false hi, Bool.false_and, Bool.false_and]

theorem matchHash (h : Same g g') (hash : UInt64) : matchHash g hash = Group15.matchHash g' hash :=
  h.mask_eq (p := (· == reducedHash hash)) (fun _ => Layout.testBit_matchHash)
    fun _ => Layout.testBit_matchHash

theorem matchAvailable (h : Same g g') : matchAvailable g = Group15.matchAvailable g' :=
  h.mask_eq (p := (· == available)) (fun _ => Layout.testBit_matchAvailable)
    fun _ => Layout.testBit_matchAvailable

theorem matchOccupied (h : Same g g') : matchOccupied g = Group15.matchOccupied g' :=
  h.mask_eq (p := (· != available)) (fun _ => Layout.testBit_matchOccupied)
    fun _ => Layout.testBit_matchOccupied

theorem isNotOverflowed (h : Same g g') (hash : UInt64) :
    isNotOverflowed g hash = Group15.isNotOverflowed g' hash := by
  rw [Layout.isNotOverflowed_eq, Layout.isNotOverflowed_eq,
    h.overflowed _ (Nat.mod_lt _ (by decide))]

theorem maybeCausedOverflow (h : Same g g') (hn : n < N) :
    maybeCausedOverflow g n = Group15.maybeCausedOverflow g' n := by
  rw [Layout.maybeCausedOverflow_eq hn, Layout.maybeCausedOverflow_eq hn, h.byte n hn,
    h.overflowed _ (Nat.mod_lt _ (by decide))]

end Group15.Same

omit [Layout γ] [Group15 γ'] [Layout γ'] in
theorem countrZero_matchAvailable_lt [Layout γ] {g : γ} (h : matchAvailable g ≠ 0) :
    countrZero (matchAvailable g).toNat < N := by
  have hne : (matchAvailable g).toNat ≠ 0 := fun h0 => h (UInt32.toNat_inj.mp h0)
  have hbit := testBit_countrZero hne
  rw [Layout.testBit_matchAvailable, Bool.and_eq_true, decide_eq_true_iff] at hbit
  exact hbit.1

-- ---------------------------------------------------------------------------
-- Arrays
-- ---------------------------------------------------------------------------

namespace Arrays

/-- The same elements in the same slots, and groups with the same bytes. -/
structure Same (a : Arrays γ K V) (a' : Arrays γ' K V) : Prop where
  groupsSizeIndex : a.groupsSizeIndex = a'.groupsSizeIndex
  groupsSizeMask : a.groupsSizeMask = a'.groupsSizeMask
  elements : a.elements = a'.elements
  groups : List.Forall₂ Group15.Same a.groups a'.groups

variable {a : Arrays γ K V} {a' : Arrays γ' K V}

omit [Group15 γ] [Layout γ] in
theorem findInGroup_mem [DecidableEq K] {ns : List Nat}
    (h : a.findInGroup x pos ns = .ok (some n)) : n ∈ ns := by
  induction ns with
  | nil => cases h
  | cons m ns ih =>
    rw [findInGroup] at h
    obtain ⟨e, -, h⟩ := Lib.bind_ok.mp h
    split at h
    · cases h
      exact List.mem_cons_self
    · exact List.mem_cons_of_mem m (ih h)

theorem findFrom_lt [DecidableEq K] {hash : UInt64} {pb : Prober}
    (h : a.findFrom x hash fuel pb = .ok (some loc)) : loc.2 < N := by
  induction fuel generalizing pb with
  | zero => cases h
  | succ fuel ih =>
    rw [findFrom] at h
    obtain ⟨pg, -, h⟩ := Lib.bind_ok.mp h
    obtain ⟨r, hr, h⟩ := Lib.bind_ok.mp h
    cases r with
    | some n =>
      cases h
      have hbit := mem_setBits.mp (findInGroup_mem hr)
      rw [Layout.testBit_matchHash, Bool.and_eq_true, decide_eq_true_iff] at hbit
      exact hbit.1
    | none =>
      dsimp only at h
      split at h
      · cases h
      split at h
      · exact ih h
      · cases h

theorem blank_same (n i : Nat) :
    List.Forall₂ (fun (g : γ) (g' : γ') => Group15.Same g g')
      ((List.replicate n initialized).modify i setSentinel)
      ((List.replicate n initialized).modify i setSentinel) := by
  have hinit : Group15.Same (initialized : γ) (initialized : γ') := .initialized
  exact forall₂_modify (forall₂_replicate hinit n) (fun _ _ => Group15.Same.setSentinel) i

theorem new_agree (al : Allocator P.sizeofValue) (n : UInt64) :
    Agree Eq Same (new P al n : Except Exit (Arrays γ K V))
      (new P al n : Except Exit (Arrays γ' K V)) := by
  rw [new, new]
  split
  · exact .ok ⟨rfl, rfl, rfl, .cons .dummyGroup (.cons .dummyGroup .nil)⟩
  split
  · exact .error rfl
  split
  · exact .error rfl
  · exact .ok ⟨rfl, rfl, rfl, blank_same _ _⟩

namespace Same

theorem capacity (h : a.Same a') : a.capacity = a'.capacity := by
  rw [Arrays.capacity, Arrays.capacity, h.elements, h.groupsSizeMask]

theorem positionFor (h : a.Same a') (hash : UInt64) : a.positionFor hash = a'.positionFor hash := by
  rw [Arrays.positionFor, Arrays.positionFor, h.groupsSizeIndex]

theorem group (h : a.Same a') (pos : Nat) : Agree Eq Group15.Same (a.group pos) (a'.group pos) := by
  rw [Arrays.group, Arrays.group]
  rcases forall₂_getElem? h.groups pos with ⟨hnone, hnone'⟩ | ⟨pg, pg', hpg, hpg', hsame⟩
  · rw [hnone, hnone']
    exact .error rfl
  · rw [hpg, hpg']
    exact .ok hsame

theorem element (h : a.Same a') (pos n : Nat) : a.element pos n = a'.element pos n := by
  rw [Arrays.element, Arrays.element, h.elements]

theorem setElement (h : a.Same a') (pos n : Nat) (e : Option (K × V)) :
    Agree Eq Same (a.setElement pos n e) (a'.setElement pos n e) := by
  rw [Arrays.setElement, Arrays.setElement, h.elements]
  split
  · exact .error rfl
  split
  · exact .ok ⟨h.groupsSizeIndex, h.groupsSizeMask, rfl, h.groups⟩
  · exact .error rfl

theorem setGroup (h : a.Same a') {pg : γ} {pg' : γ'} (hpg : Group15.Same pg pg') (pos : Nat) :
    (a.setGroup pos pg).Same (a'.setGroup pos pg') :=
  ⟨h.groupsSizeIndex, h.groupsSizeMask, h.elements, forall₂_set h.groups hpg pos⟩

theorem emplaceAt_agree (h : a.Same a') (hash : UInt64) (e : K × V) (fuel : Nat) (pb : Prober) :
    Agree Eq (fun r r' => r.1.Same r'.1 ∧ r.2 = r'.2)
      (nosizeUncheckedEmplaceAt hash e fuel a pb) (nosizeUncheckedEmplaceAt hash e fuel a' pb) := by
  induction fuel generalizing a a' pb with
  | zero => exact .error rfl
  | succ fuel ih =>
    rw [nosizeUncheckedEmplaceAt, nosizeUncheckedEmplaceAt]
    refine (h.group pb.pos.toNat).bind fun pg pg' hpg => ?_
    rw [hpg.matchAvailable, h.groupsSizeMask]
    dsimp only
    split
    case isTrue hne =>
      have hlt := countrZero_matchAvailable_lt hne
      exact (h.setElement _ _ _).bind fun b b' hb => .ok ⟨hb.setGroup (hpg.set hlt hash) _, rfl⟩
    case isFalse => exact ih (h.setGroup (hpg.markOverflow hash) _) _

theorem matchReallyOccupied (h : a.Same a') {pg : γ} {pg' : γ'} (hpg : Group15.Same pg pg')
    (pos : Nat) : a.matchReallyOccupied pg pos = a'.matchReallyOccupied pg' pos := by
  rw [Arrays.matchReallyOccupied, Arrays.matchReallyOccupied, hpg.matchOccupied, h.groupsSizeMask]

theorem elementSlots (h : a.Same a') : a.elementSlots = a'.elementSlots := by
  have hslots : ∀ i, (a.groups.zipIdx i).flatMap (fun p =>
        (setBits (a.matchReallyOccupied p.1 p.2).toNat).map fun n => (p.2, n)) =
      (a'.groups.zipIdx i).flatMap (fun p =>
        (setBits (a'.matchReallyOccupied p.1 p.2).toNat).map fun n => (p.2, n)) := by
    have hgroups := h.groups
    generalize a.groups = gs at hgroups
    generalize a'.groups = gs' at hgroups
    intro i
    induction hgroups generalizing i with
    | nil => rfl
    | cons hpg _ ih =>
      rw [List.zipIdx_cons, List.zipIdx_cons, List.flatMap_cons, List.flatMap_cons, ih]
      dsimp only
      rw [h.matchReallyOccupied hpg]
  rw [Arrays.elementSlots, Arrays.elementSlots, h.elements]
  exact congrArg (fun slots => if a'.elements.isSome then slots else []) (hslots 0)

theorem transferElement (h : a.Same a') (fuel : Nat) {b : Arrays γ K V} {b' : Arrays γ' K V}
    (hb : b.Same b') (slot : Nat × Nat) :
    Agree Eq Same (a.transferElement P fuel b slot) (a'.transferElement P fuel b' slot) := by
  rw [Arrays.transferElement, Arrays.transferElement, h.element]
  refine Agree.bind_same fun e _ => ?_
  dsimp only
  rw [hb.positionFor]
  exact (hb.emplaceAt_agree _ e fuel _).bind fun r r' hr => .ok hr.1

theorem clear (h : a.Same a') : Agree Eq Same a.clear a'.clear := by
  rw [Arrays.clear, Arrays.clear, h.elementSlots]
  refine (Agree.foldlM (fun b b' s hb => hb.setElement s.1 s.2 none) h).bind fun b b' hb => .ok ?_
  refine ⟨hb.groupsSizeIndex, hb.groupsSizeMask, hb.elements, ?_⟩
  rw [List.map_const', List.map_const', hb.groups.length_eq, h.groupsSizeMask]
  exact blank_same _ _

variable [DecidableEq K]

theorem findInGroup (h : a.Same a') (x : K) (pos : Nat) (ns : List Nat) :
    a.findInGroup x pos ns = a'.findInGroup x pos ns := by
  induction ns with
  | nil => rfl
  | cons n ns ih => rw [Arrays.findInGroup, Arrays.findInGroup, h.element, ih]

theorem findFrom (h : a.Same a') (x : K) (hash : UInt64) (fuel : Nat) (pb : Prober) :
    a.findFrom x hash fuel pb = a'.findFrom x hash fuel pb := by
  induction fuel generalizing pb with
  | zero => rfl
  | succ fuel ih =>
    rw [Arrays.findFrom, Arrays.findFrom]
    refine ((h.group pb.pos.toNat).bind fun pg pg' hpg => ?_).eq
    rw [hpg.matchHash, hpg.isNotOverflowed, h.findInGroup, h.groupsSizeMask]
    refine Agree.bind_same fun r _ => ?_
    cases r with
    | some n => exact .ok rfl
    | none =>
      dsimp only
      split
      · exact .ok rfl
      split
      · rw [ih]
        exact .refl _
      · exact .ok rfl

end Same

end Arrays

-- ---------------------------------------------------------------------------
-- Tables
-- ---------------------------------------------------------------------------

namespace Table

structure Same (t : Table γ K V) (t' : Table γ' K V) : Prop where
  arrays : t.arrays.Same t'.arrays
  ml : t.ml = t'.ml
  size : t.size = t'.size

theorem empty_same : (empty : Table γ K V).Same (empty : Table γ' K V) :=
  ⟨⟨rfl, rfl, rfl, .cons .dummyGroup (.cons .dummyGroup .nil)⟩, rfl, rfl⟩

def SameExit (exit : Exit × Table γ K V) (exit' : Exit × Table γ' K V) : Prop :=
  exit.1 = exit'.1 ∧ exit.2.Same exit'.2

namespace Same

variable {t : Table γ K V} {t' : Table γ' K V}

theorem leaving (h : t.Same t') {R : α → α' → Prop} {x : Except Exit α} {x' : Except Exit α'}
    (hx : Agree Eq R x x') : Agree SameExit R (t.leaving x) (t'.leaving x') :=
  hx.mapError fun _ _ heq => ⟨heq, h⟩

theorem capacity (h : t.Same t') : t.capacity = t'.capacity := h.arrays.capacity

theorem uncheckedRehash (h : t.Same t') (fuel : Nat) {b : Arrays γ K V} {b' : Arrays γ' K V}
    (hb : b.Same b') :
    Agree SameExit Same (t.uncheckedRehash P fuel b) (t'.uncheckedRehash P fuel b') := by
  rw [Table.uncheckedRehash, Table.uncheckedRehash, h.arrays.elementSlots]
  refine (h.leaving (.foldlM (fun c c' s hc => h.arrays.transferElement fuel hc s) hb)).bind
    fun c c' hc => .ok ⟨hc, ?_, h.size⟩
  rw [hc.capacity]

theorem newArraysForGrowth (h : t.Same t') (al : Allocator P.sizeofValue) :
    Agree Eq Arrays.Same (t.newArraysForGrowth P al) (t'.newArraysForGrowth P al) := by
  rw [Table.newArraysForGrowth, Table.newArraysForGrowth, h.size]
  exact Agree.bind_same fun n _ => Arrays.new_agree al n

theorem uncheckedEmplaceWithRehash (h : t.Same t') (al : Allocator P.sizeofValue) (fuel : Nat)
    (hash : UInt64) (e : K × V) :
    Agree SameExit (fun r r' => r.1.Same r'.1 ∧ r.2 = r'.2)
      (t.uncheckedEmplaceWithRehash P al fuel hash e)
      (t'.uncheckedEmplaceWithRehash P al fuel hash e) := by
  rw [Table.uncheckedEmplaceWithRehash, Table.uncheckedEmplaceWithRehash]
  refine (h.leaving (h.newArraysForGrowth al)).bind fun b b' hb => ?_
  rw [hb.positionFor]
  refine (h.leaving (hb.emplaceAt_agree hash e fuel _)).bind fun r r' hr => ?_
  refine (h.uncheckedRehash fuel hr.1).bind fun u u' hu => .ok ⟨⟨hu.arrays, hu.ml, ?_⟩, hr.2⟩
  rw [hu.size]

theorem recoverSlot (h : t.Same t') (pos : Nat) (hn : n < N) :
    Agree SameExit Same (t.recoverSlot pos n) (t'.recoverSlot pos n) := by
  rw [Table.recoverSlot, Table.recoverSlot]
  refine (h.leaving (h.arrays.group pos)).bind fun pg pg' hpg => ?_
  rw [hpg.maybeCausedOverflow hn, h.ml, h.size]
  exact .ok ⟨h.arrays.setGroup (hpg.reset hn) pos, rfl, rfl⟩

theorem clear (h : t.Same t') : Agree SameExit Same t.clear t'.clear := by
  rw [Table.clear, Table.clear, h.arrays.elements]
  split
  · refine (h.leaving h.arrays.clear).bind fun b b' hb => ?_
    rw [hb.capacity]
    exact .ok ⟨hb, rfl, rfl⟩
  · exact .ok h

theorem rehash (h : t.Same t') (al : Allocator P.sizeofValue) (fuel : Nat) (n : UInt64) :
    Agree SameExit Same (t.rehash P al fuel n) (t'.rehash P al fuel n) := by
  rw [Table.rehash, Table.rehash, h.size, h.capacity]
  refine (h.leaving (.same _)).bind fun m _ hm => ?_
  obtain ⟨rfl, -⟩ := hm
  dsimp only
  generalize (if (if n < m then m else n) ≠ 0 then _ else _) = n'
  split
  · exact (h.leaving (Arrays.new_agree al n')).bind fun b b' hb => h.uncheckedRehash fuel hb
  · exact .ok h

theorem reserve (h : t.Same t') (al : Allocator P.sizeofValue) (fuel : Nat) (n : UInt64) :
    Agree SameExit Same (t.reserve P al fuel n) (t'.reserve P al fuel n) := by
  rw [Table.reserve, Table.reserve]
  exact (h.leaving (.same _)).bind fun m _ hm => hm.1 ▸ h.rehash al fuel m

variable [DecidableEq K]

theorem find (h : t.Same t') (fuel : Nat) (x : K) : t.find P fuel x = t'.find P fuel x := by
  rw [Table.find, Table.find, h.arrays.positionFor, h.arrays.findFrom]

theorem value (h : t.Same t') (fuel : Nat) (x : K) : t.value P fuel x = t'.value P fuel x := by
  rw [Table.value, Table.value, h.find]
  refine congrArg _ (funext fun r => ?_)
  cases r with
  | none => rfl
  | some loc => simp only [h.arrays.element]

theorem emplace (h : t.Same t') (al : Allocator P.sizeofValue) (fuel : Nat) (e : K × V) :
    Agree SameExit (fun r r' => r.1.Same r'.1 ∧ r.2 = r'.2) (t.emplace P al fuel e)
      (t'.emplace P al fuel e) := by
  rw [Table.emplace, Table.emplace, h.find]
  refine (h.leaving (.same _)).bind fun r _ hr => ?_
  obtain ⟨rfl, -⟩ := hr
  cases r with
  | some loc => exact .ok ⟨h, rfl⟩
  | none =>
    dsimp only
    rw [h.size, h.ml, h.arrays.positionFor]
    split
    · refine (h.leaving (h.arrays.emplaceAt_agree _ e fuel _)).bind fun r r' hr => ?_
      exact .ok ⟨⟨hr.1, rfl, rfl⟩, by rw [hr.2]⟩
    · refine (h.uncheckedEmplaceWithRehash al fuel _ e).bind fun r r' hr => ?_
      exact .ok ⟨hr.1, by rw [hr.2]⟩

theorem erase (h : t.Same t') (fuel : Nat) (x : K) :
    Agree SameExit (fun r r' => r.1.Same r'.1 ∧ r.2 = r'.2)
      (t.erase P fuel x) (t'.erase P fuel x) := by
  rw [Table.erase, Table.erase, h.find]
  refine (h.leaving (.same _)).bind fun r _ hr => ?_
  obtain ⟨rfl, hr⟩ := hr
  cases r with
  | none => exact .ok ⟨h, rfl⟩
  | some loc =>
    have hn : loc.2 < N :=
      Arrays.findFrom_lt (show t'.arrays.findFrom x _ fuel _ = .ok (some loc) from hr)
    refine (h.leaving (h.arrays.setElement loc.1 loc.2 none)).bind fun b b' hb => ?_
    have hmid : ({ t with arrays := b } : Table γ K V).Same { t' with arrays := b' } :=
      ⟨hb, h.ml, h.size⟩
    exact (hmid.recoverSlot loc.1 hn).bind fun u u' hu => .ok ⟨hu, rfl⟩

-- ---------------------------------------------------------------------------
-- Runs
-- ---------------------------------------------------------------------------

theorem exec (h : t.Same t') (call : Call P) (fuel : Nat) :
    Agree SameExit (fun r r' => r.1.Same r'.1 ∧ r.2 = r'.2)
      (call.exec fuel t) (call.exec fuel t') := by
  obtain ⟨op, al⟩ := call
  cases op with
  | emplace e =>
    exact (h.emplace al fuel e).bind fun _ _ hr =>
      .ok ⟨hr.1, congrArg Answer.emplaced (congrArg Prod.snd hr.2)⟩
  | erase x => exact (h.erase fuel x).bind fun _ _ hr => .ok ⟨hr.1, congrArg Answer.erased hr.2⟩
  | clear => exact h.clear.bind fun u u' hu => .ok ⟨hu, rfl⟩
  | rehash n => exact (h.rehash al fuel n).bind fun u u' hu => .ok ⟨hu, rfl⟩
  | reserve n => exact (h.reserve al fuel n).bind fun u u' hu => .ok ⟨hu, rfl⟩

theorem step {u : Table γ K V} (h : t.Same t') (hs : Step P fuel t i u) :
    ∃ u', Step P fuel t' i u' ∧ u.Same u' := by
  cases hs with
  | @returns call u answer hret =>
    obtain ⟨⟨u', answer'⟩, hret', hsame, heq⟩ := (h.exec call fuel).of_ok hret
    cases heq
    exact ⟨u', .returns hret', hsame⟩
  | throws hthrow =>
    obtain ⟨⟨exit', u'⟩, hthrow', hexit, hsame⟩ := (h.exec _ fuel).of_error hthrow
    cases hexit
    exact ⟨u', .throws hthrow', hsame⟩

theorem run {u : Table γ K V} (h : t.Same t') (hr : Run (Step P fuel) t calls u) :
    ∃ u', Run (Step P fuel) t' calls u' ∧ u.Same u' := by
  induction hr generalizing t' with
  | nil => exact ⟨t', .nil, h⟩
  | cons hs _ ih =>
    obtain ⟨mid, hmid, hsame⟩ := h.step hs
    obtain ⟨u', hrun, hlast⟩ := ih hsame
    exact ⟨u', .cons hmid hrun, hlast⟩

end Same

/-- What a caller sees of a table, the order of its elements included. -/
def seen [DecidableEq K] (P : Policy K V) (fuel : Nat) (t : Table γ K V) :
    Option (List (Option (K × V))) × UInt64 × UInt64 × UInt64 × (K → Except Exit (Option V)) :=
  (t.arrays.elements, t.capacity, t.ml, t.size, t.value P fuel)

theorem Same.seen [DecidableEq K] {t : Table γ K V} {t' : Table γ' K V} (h : t.Same t')
    (fuel : Nat) : t.seen P fuel = t'.seen P fuel := by
  rw [Table.seen, Table.seen, h.arrays.elements, h.capacity, h.ml, h.size,
    funext fun x => h.value (P := P) fuel x]

/-- A program that uses the table behaves alike on targets with and without
SIMD: the same calls have the same answers and fail alike, and lead to tables
that look the same. -/
theorem sse2_run_iff_interleaved [DecidableEq K] (P : Policy K V) (fuel : Nat)
    (calls : List (Call P × Answer))
    (s : Option (List (Option (K × V))) × UInt64 × UInt64 × UInt64 ×
      (K → Except Exit (Option V))) :
    (∃ t, Run (Step P fuel) (empty : Table Sse2 K V) calls t ∧ t.seen P fuel = s) ↔
      ∃ t, Run (Step P fuel) (empty : Table Interleaved K V) calls t ∧ t.seen P fuel = s := by
  have hsame : (empty : Table Sse2 K V).Same (empty : Table Interleaved K V) := empty_same
  have hsame' : (empty : Table Interleaved K V).Same (empty : Table Sse2 K V) := empty_same
  constructor
  · rintro ⟨t, hr, rfl⟩
    obtain ⟨t', hr', hlast⟩ := hsame.run hr
    exact ⟨t', hr', (hlast.seen fuel).symm⟩
  · rintro ⟨t, hr, rfl⟩
    obtain ⟨t', hr', hlast⟩ := hsame'.run hr
    exact ⟨t', hr', (hlast.seen fuel).symm⟩

end Table

end BenchHashmaps.Boost
