import BenchHashmaps.TwoWay
import BenchHashmaps.Lib.Packed
import BenchHashmaps.Lib.Runs

/-!
# What one bucket does

A slot is a packed array of cells, and its entries are the live ones. Each
loop of the source over one or two slots is read here as an operation on
entries, or as the first hit of the probe order.
-/

namespace BenchHashmaps

open Lib

variable {Key Value : Type} {BUCKET : Nat}

namespace Slot

/-- The parallel arrays as one array of cells. -/
def cells (slot : Slot Key Value BUCKET) : List (Key × Value) :=
  slot.keys.toList.zip slot.values.toList

@[simp] theorem length_cells (slot : Slot Key Value BUCKET) : slot.cells.length = BUCKET := by
  simp [cells]

def cell (slot : Slot Key Value BUCKET) (i : Nat) (h : i < BUCKET) : Key × Value :=
  (slot.keys[i], slot.values[i])

theorem getElem_cells (slot : Slot Key Value BUCKET) (h : i < slot.cells.length) :
    slot.cells[i] = slot.cell i (slot.length_cells ▸ h) := by
  simp [cells, cell]

theorem cell_set (slot : Slot Key Value BUCKET) (hn : n < BUCKET) (key : Key) (value : Value)
    (h : m < BUCKET) :
    cell { keys := slot.keys.set n key, values := slot.values.set n value } m h =
      if n = m then (key, value) else slot.cell m h := by
  simp only [cell, Vector.getElem_set]
  split <;> rfl

theorem cells_set (slot : Slot Key Value BUCKET) (h : n < BUCKET) (key : Key) (value : Value) :
    cells { keys := slot.keys.set n key, values := slot.values.set n value } =
      slot.cells.set n (key, value) := by
  refine List.ext_getElem (by simp) fun i hi hi' => ?_
  rw [getElem_cells, List.getElem_set, cell_set]
  split
  next => rfl
  next => rw [getElem_cells]

theorem cell_shift (slot : Slot Key Value BUCKET) (i : Nat) (h : m < BUCKET) :
    (slot.shift i).cell m h =
      if h' : i ≤ m ∧ m + 1 < BUCKET then slot.cell (m + 1) h'.2 else slot.cell m h := by
  fun_induction slot.shift i with
  | case1 slot j hj ih =>
    rw [ih]
    simp only [cell_set]
    by_cases hm : m = j
    · subst hm
      rw [dif_neg (by omega), dif_pos ⟨le_refl m, by omega⟩, if_pos rfl]
      rfl
    · split
      next h1 => rw [dif_pos ⟨by omega, h1.2⟩, if_neg (by omega)]
      next h1 => rw [dif_neg (by omega), if_neg (by omega)]
  | case2 slot j hj => rw [dif_neg (by omega)]

variable [LinearOrder Key] [OrderTop Key] {σ : Type}

def occupied (cell : Key × Value) : Bool := decide (cell.1 ≠ EMPTY)

def entries (slot : Slot Key Value BUCKET) : List (Key × Value) := live occupied slot.cells

def Packed (slot : Slot Key Value BUCKET) : Prop := Lib.Packed occupied slot.cells

@[simp] theorem occupied_iff {cell : Key × Value} : occupied cell = true ↔ cell.1 ≠ EMPTY := by
  simp [occupied]

@[simp] theorem occupied_eq_false {cell : Key × Value} :
    occupied cell = false ↔ cell.1 = EMPTY := by
  simp [occupied]

theorem length_entries_le (slot : Slot Key Value BUCKET) : slot.entries.length ≤ BUCKET := by
  have h := live_length_le occupied slot.cells
  rwa [length_cells] at h

theorem entries_ne_empty {slot : Slot Key Value BUCKET} (h : e ∈ slot.entries) : e.1 ≠ EMPTY :=
  occupied_iff.mp (live_pos h)

theorem Packed.key_ne_iff {slot : Slot Key Value BUCKET} (hp : slot.Packed) (h : i < BUCKET) :
    slot.keys[i] ≠ EMPTY ↔ i < slot.entries.length := by
  have hc : i < slot.cells.length := by simpa using h
  have hi := Lib.Packed.pos_iff hp hc
  rwa [occupied_iff, getElem_cells] at hi

theorem getElem_entries (slot : Slot Key Value BUCKET) (h : i < slot.entries.length) :
    slot.entries[i] = slot.cell i (h.trans_le slot.length_entries_le) := by
  have hc : i < slot.cells.length := h.trans_le (live_length_le occupied slot.cells)
  rw [← getElem_cells slot hc]
  exact getElem_live h hc

/-- The entries from cell `j` on, cell by cell: the recursion of the loops
that walk a slot up to its first free cell. -/
theorem live_drop (slot : Slot Key Value BUCKET) (h : j < BUCKET) :
    live occupied (slot.cells.drop j) =
      if slot.keys[j] ≠ EMPTY then
        (slot.keys[j], slot.values[j]) :: live occupied (slot.cells.drop (j + 1))
      else [] := by
  have hc : j < slot.cells.length := by simpa using h
  rw [List.drop_eq_getElem_cons hc, live, List.takeWhile_cons, getElem_cells]
  simp [cell]

theorem live_drop_of_le (slot : Slot Key Value BUCKET) (h : ¬ j < BUCKET) :
    live occupied (slot.cells.drop j) = [] := by
  rw [List.drop_of_length_le (by simpa using h), live, List.takeWhile_nil]

-- ---------------------------------------------------------------------------
-- insert
-- ---------------------------------------------------------------------------

theorem scan_from (slot : Slot Key Value BUCKET) (n : Nat) :
    slot.scan n = n + (live occupied (slot.cells.drop n)).length := by
  fun_induction slot.scan n with
  | case1 n h hlt ih =>
    rw [ih, live_drop slot h, if_pos hlt.ne, List.length_cons]
    omega
  | case2 n h hlt =>
    rw [live_drop slot h, if_neg (by simpa [lt_top_iff_ne_top] using hlt)]
    rfl
  | case3 n h =>
    rw [live_drop_of_le slot h]
    rfl

@[simp] theorem scan_eq (slot : Slot Key Value BUCKET) : slot.scan 0 = slot.entries.length := by
  rw [scan_from, List.drop_zero, Nat.zero_add]
  rfl

theorem Packed.put {slot : Slot Key Value BUCKET} (hp : slot.Packed)
    (hn : slot.entries.length < BUCKET) (hk : key ≠ EMPTY) (value : Value) :
    ∃ slot', slot.put slot.entries.length key value = .ok slot' ∧ slot'.Packed ∧
      slot'.entries = slot.entries ++ [(key, value)] := by
  have hlen : (live occupied slot.cells).length < slot.cells.length := by
    rw [length_cells]
    exact hn
  obtain ⟨hp', he⟩ := Lib.Packed.set (x := (key, value)) hp hlen (occupied_iff.mpr hk)
  have hc := cells_set slot hn key value
  exact ⟨_, dif_pos hn, (congrArg (Lib.Packed occupied) hc).mpr hp',
    (congrArg (live occupied) hc).trans he⟩

-- ---------------------------------------------------------------------------
-- erase
-- ---------------------------------------------------------------------------

theorem cell_remove (slot : Slot Key Value BUCKET) (i : Nat) (h : m < BUCKET) :
    (slot.remove i).cell m h =
      if m = BUCKET - 1 then (EMPTY, ((slot.shift i).cell m h).2) else (slot.shift i).cell m h := by
  split
  next hm => subst hm; simp [remove, cell]
  next hm => simp [remove, cell, Ne.symm hm]

/-- The gap closes, and the freed last cell keeps its old value. -/
theorem cells_remove (slot : Slot Key Value BUCKET) (h : i < BUCKET) :
    ∃ value, (slot.remove i).cells = slot.cells.eraseIdx i ++ [(EMPTY, value)] := by
  have hlen : (slot.cells.eraseIdx i).length = BUCKET - 1 := by
    rw [List.length_eraseIdx_of_lt (by simpa using h), length_cells]
  refine ⟨slot.values[BUCKET - 1], List.ext_getElem (by simp [hlen]; omega) fun m hm _ => ?_⟩
  rw [length_cells] at hm
  rw [getElem_cells, cell_remove, cell_shift slot i hm]
  by_cases hlast : m = BUCKET - 1
  · subst hlast
    rw [if_pos rfl, dif_neg (by omega), List.getElem_append_right (by omega)]
    simp [cell]
  · rw [if_neg hlast, List.getElem_append_left (by omega), List.getElem_eraseIdx]
    split
    next h1 => rw [dif_neg (by omega), getElem_cells]
    next h1 => rw [dif_pos (by omega), getElem_cells]

theorem Packed.remove {slot : Slot Key Value BUCKET} (hp : slot.Packed)
    (hi : i < slot.entries.length) :
    (slot.remove i).Packed ∧ (slot.remove i).entries = slot.entries.eraseIdx i := by
  obtain ⟨value, hc⟩ := cells_remove slot (hi.trans_le slot.length_entries_le)
  obtain ⟨hp', he⟩ := Lib.Packed.erase (x := (EMPTY, value)) hp hi (by simp)
  exact ⟨(congrArg (Lib.Packed occupied) hc).mpr hp', (congrArg (live occupied) hc).trans he⟩

-- ---------------------------------------------------------------------------
-- fill_empty and the loops over entries
-- ---------------------------------------------------------------------------

theorem packed_blank (values : Vector Value BUCKET) :
    Packed { keys := Vector.replicate BUCKET (EMPTY : Key), values } ∧
      entries { keys := Vector.replicate BUCKET (EMPTY : Key), values } = [] := by
  have hfree : ∀ cell ∈ cells { keys := Vector.replicate BUCKET (EMPTY : Key), values },
      occupied cell = false := by
    intro cell hcell
    obtain ⟨i, hi, rfl⟩ := List.mem_iff_getElem.mp hcell
    simp [getElem_cells, cell]
  exact ⟨packed_of_free hfree, live_of_free hfree⟩

theorem forEntries_from (f : σ → Key → Value → Except Fault σ) (slot : Slot Key Value BUCKET)
    (j : Nat) (acc : σ) : slot.forEntries f j acc =
      (live occupied (slot.cells.drop j)).foldlM (fun acc e => f acc e.1 e.2) acc := by
  fun_induction slot.forEntries f j acc with
  | case1 j acc h hne ih =>
    rw [live_drop slot h, if_pos hne, List.foldlM_cons]
    exact bind_congr ih
  | case2 j acc h hne =>
    rw [live_drop slot h, if_neg hne]
    rfl
  | case3 j acc h =>
    rw [live_drop_of_le slot h]
    rfl

theorem forEntries_eq (f : σ → Key → Value → Except Fault σ) (slot : Slot Key Value BUCKET)
    (acc : σ) : slot.forEntries f 0 acc =
      slot.entries.foldlM (fun acc e => f acc e.1 e.2) acc := by
  rw [forEntries_from, List.drop_zero]
  rfl

-- ---------------------------------------------------------------------------
-- The probe order
-- ---------------------------------------------------------------------------

/-- Where a scan of two slots, cell by cell and the first slot first, meets
`key`: in the first slot or not, and at which cell. The three lookups and
`erase` stop there. -/
def probe (slot1 slot2 : Slot Key Value BUCKET) (key : Key) (i : Nat) :
    Option (Bool × Fin BUCKET) :=
  if h : i < BUCKET then
    if slot1.keys[i] = key then some (true, ⟨i, h⟩)
    else if slot2.keys[i] = key then some (false, ⟨i, h⟩)
    else probe slot1 slot2 key (i + 1)
  else none
termination_by BUCKET - i

variable {slot1 slot2 : Slot Key Value BUCKET} {key : Key} {i : Nat}

def pick (first : Bool) (slot1 slot2 : Slot Key Value BUCKET) : Slot Key Value BUCKET :=
  if first then slot1 else slot2

omit [OrderTop Key] in
theorem probe_some (h : probe slot1 slot2 key i = some (first, n)) :
    i ≤ n ∧ (pick first slot1 slot2).keys[n] = key ∧
      (∀ (m : Nat) (hm : m < n), i ≤ m → slot1.keys[m] ≠ key ∧ slot2.keys[m] ≠ key) ∧
      (first = false → slot1.keys[n] ≠ key) := by
  fun_induction probe slot1 slot2 key i with
  | case1 i hi h1 =>
    cases h
    exact ⟨le_refl i, h1, fun m hm hi => absurd hm (not_lt.mpr hi), by simp⟩
  | case2 i hi h1 h2 =>
    cases h
    exact ⟨le_refl i, h2, fun m hm hi => absurd hm (not_lt.mpr hi), fun _ => h1⟩
  | case3 i hi h1 h2 ih =>
    obtain ⟨hle, hk, hb, hf⟩ := ih h
    refine ⟨by omega, hk, fun m hm him => ?_, hf⟩
    rcases Nat.eq_or_lt_of_le him with rfl | him
    · exact ⟨h1, h2⟩
    · exact hb m hm him
  | case4 i hi => cases h

omit [OrderTop Key] in
theorem probe_none : probe slot1 slot2 key i = none ↔
    ∀ (m : Nat) (hm : m < BUCKET), i ≤ m → slot1.keys[m] ≠ key ∧ slot2.keys[m] ≠ key := by
  fun_induction probe slot1 slot2 key i with
  | case1 i hi h1 =>
    simp only [reduceCtorEq, false_iff]
    exact fun h => (h i hi (le_refl i)).1 h1
  | case2 i hi h1 h2 =>
    simp only [reduceCtorEq, false_iff]
    exact fun h => (h i hi (le_refl i)).2 h2
  | case3 i hi h1 h2 ih =>
    rw [ih]
    constructor
    · intro h m hm him
      rcases Nat.eq_or_lt_of_le him with rfl | him
      · exact ⟨h1, h2⟩
      · exact h m hm him
    · exact fun h m hm him => h m hm (by omega)
  | case4 i hi =>
    simp only [true_iff]
    exact fun m hm him => absurd hm (by omega)

/-- What a hit at cell `n` adds to `*steps`. -/
def cost (first : Bool) (n : Nat) : UInt64 := .ofNat (2 * n + if first then 0 else 1)

theorem add_no_steps (steps : UInt64) : steps + .ofNat (2 * 0) = steps := UInt64.add_zero steps

theorem add_cost_true (steps : UInt64) (n : Nat) :
    steps + .ofNat (2 * n) = steps + cost true n := rfl

theorem add_cost_false (steps : UInt64) (n : Nat) :
    steps + .ofNat (2 * n) + 1 = steps + cost false n := by
  rw [cost, if_neg Bool.false_ne_true, UInt64.ofNat_add, add_assoc]
  rfl

theorem add_two_steps (steps : UInt64) (n : Nat) :
    steps + .ofNat (2 * n) + 1 + 1 = steps + .ofNat (2 * (n + 1)) := by
  rw [Nat.mul_add, UInt64.ofNat_add, add_assoc, add_assoc]
  rfl

def result (slot1 slot2 : Slot Key Value BUCKET) (steps : UInt64) :
    Option (Bool × Fin BUCKET) → Except Fault (Value × UInt64)
  | some (first, n) => .ok ((pick first slot1 slot2).values[n], steps + cost first n)
  | none => .error .outOfBounds

omit [OrderTop Key] in
theorem findLoop_eq (slot1 slot2 : Slot Key Value BUCKET) (key : Key) (i : Nat) (steps : UInt64) :
    findLoop slot1 slot2 key i (steps + .ofNat (2 * i)) =
      result slot1 slot2 steps (probe slot1 slot2 key i) := by
  fun_induction probe slot1 slot2 key i with
  | case1 i hi h1 =>
    rw [findLoop, dif_pos hi, if_pos h1, add_cost_true]
    rfl
  | case2 i hi h1 h2 =>
    rw [findLoop, dif_pos hi, if_neg h1, if_pos h2, add_cost_false]
    rfl
  | case3 i hi h1 h2 ih => rw [findLoop, dif_pos hi, if_neg h1, if_neg h2, add_two_steps, ih]
  | case4 i hi =>
    rw [findLoop, dif_neg hi]
    rfl

theorem probe_eq_none (hp1 : slot1.Packed) (hp2 : slot2.Packed) (hk : key ≠ EMPTY)
    (h1 : slot1.entries.length ≤ i) (h2 : slot2.entries.length ≤ i) :
    probe slot1 slot2 key i = none := by
  refine probe_none.mpr fun m hm him => ⟨fun hkey => ?_, fun hkey => ?_⟩
  · have := (hp1.key_ne_iff hm).mp (hkey ▸ hk)
    omega
  · have := (hp2.key_ne_iff hm).mp (hkey ▸ hk)
    omega

/-- `contains` stops when both cells are free. In packed slots nothing is
left to hit there, and every hit comes before. -/
theorem containsLoop_eq (hp1 : slot1.Packed) (hp2 : slot2.Packed) (hk : key ≠ EMPTY)
    (steps : UInt64) :
    containsLoop slot1 slot2 key i (steps + .ofNat (2 * i)) =
      match probe slot1 slot2 key i with
      | some (first, n) => (true, steps + cost first n)
      | none =>
        (false, steps + .ofNat (2 * max i (max slot1.entries.length slot2.entries.length))) := by
  fun_induction probe slot1 slot2 key i with
  | case1 i hi h1 =>
    rw [containsLoop, dif_pos hi, if_pos (.inl (h1 ▸ hk)), if_pos h1, add_cost_true]
  | case2 i hi h1 h2 =>
    rw [containsLoop, dif_pos hi, if_pos (.inr (h2 ▸ hk)), if_neg h1, if_pos h2, add_cost_false]
  | case3 i hi h1 h2 ih =>
    have hlive := or_congr (hp1.key_ne_iff hi) (hp2.key_ne_iff hi)
    rw [containsLoop, dif_pos hi]
    by_cases hne : slot1.keys[i] ≠ EMPTY ∨ slot2.keys[i] ≠ EMPTY
    · have hlt := hlive.mp hne
      have hmax : max (i + 1) (max slot1.entries.length slot2.entries.length) =
          max i (max slot1.entries.length slot2.entries.length) := by omega
      rw [if_pos hne, if_neg h1, if_neg h2, add_two_steps, ih, hmax]
    · have hle := mt hlive.mpr hne
      have hmax : max i (max slot1.entries.length slot2.entries.length) = i := by omega
      rw [if_neg hne, probe_eq_none hp1 hp2 hk (by omega) (by omega), hmax]
  | case4 i hi =>
    have hl1 := slot1.length_entries_le
    have hl2 := slot2.length_entries_le
    have hmax : max i (max slot1.entries.length slot2.entries.length) = i := by omega
    rw [containsLoop, dif_neg hi, hmax]

end Slot

end BenchHashmaps
