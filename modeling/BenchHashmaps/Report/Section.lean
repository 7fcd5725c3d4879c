import BenchHashmaps.Report.Grid

/-!
# Sections

A section of the output is a title and the tables of its sets, in their order
and each with a title of its own. It is as wide as its widest table; titles are
shorter than any table, so nothing in it is wider.
-/

namespace BenchHashmaps.Report

open Lib (mapM_eq_some mapM_forall mapM_mem mapM_mapM fenceAt)

variable {set : BenchSet} {row_spec : RowSpec} {table : Table}

-- ---------------------------------------------------------------------------
-- The narrowest table
-- ---------------------------------------------------------------------------

theorem toString_ne_nil (n : UInt64) : (toString n).toList ≠ [] := by
  change n.toNat.repr.toList ≠ []
  rw [Nat.toList_repr]
  exact Nat.toDigits_ne_nil

theorem hitRatePercent_ne_nil (accesses misses : UInt64) :
    (hitRatePercent accesses misses).toList ≠ [] := by
  rw [hitRatePercent]
  split
  case isTrue => decide
  split
  case isTrue => decide
  case isFalse => exact toString_ne_nil _

theorem length_cell (h : formatCell result = some cell) : 7 ≤ cell.toList.length := by
  have hpos := List.length_pos_iff.mpr (toString_ne_nil (shownCycles result))
  have hrate : ∀ rate, 0 < (shownRate result rate).toList.length :=
    fun rate => List.length_pos_iff.mpr (hitRatePercent_ne_nil _ _)
  have hbranch := hrate .branch
  have hl1d := hrate .l1d
  have hllc := hrate .llc
  rw [toList_cell h, cellFields]
  simp
  omega

theorem six_le_width (h : makeTable set = some table) (hwidth : width ∈ table.widths) :
    6 ≤ width := by
  obtain ⟨hheaders, hrows, hfits, -⟩ := makeTable_spec h
  obtain ⟨idx, hidx⟩ := List.getElem?_of_mem hwidth
  cases idx with
  | zero =>
    obtain ⟨cell, hcell, hle⟩ := hfits.rows table.headers List.mem_cons_self 0 width hidx
    rw [hheaders] at hcell
    cases hcell
    exact hle
  | succ idx =>
    obtain ⟨row, rows, hrow, -, heq⟩ := List.forall₂_cons_left_iff.mp (mapM_eq_some.mp hrows)
    obtain ⟨cell, hcell, hle⟩ := hfits.rows row
      (List.mem_cons_of_mem _ (heq ▸ List.mem_cons_self)) (idx + 1) width hidx
    obtain ⟨cells, hcells, rfl⟩ := makeRow_spec hrow
    have hlong : ∀ cell ∈ cells, 7 ≤ cell.toList.length :=
      (mapM_forall hcells (p := fun _ => True) fun _ _ hcell =>
        iff_of_true trivial (length_cell hcell)).mp fun _ _ => trivial
    rw [List.getElem?_cons_succ] at hcell
    obtain ⟨text, htext, rfl⟩ := List.mem_map.mp (List.mem_of_getElem? hcell)
    have := hlong text htext
    omega

theorem le_sum_widths {widths : List Nat} (h : ∀ width ∈ widths, 6 ≤ width) :
    7 * widths.length ≤ (widths.map (· + 1)).sum := by
  induction widths with
  | nil => exact Nat.zero_le _
  | cons width widths ih =>
    obtain ⟨hwidth, hwidths⟩ := List.forall_mem_cons.mp h
    have hrest := ih hwidths
    rw [List.length_cons, List.map_cons, List.sum_cons]
    omega

theorem le_gridWidth (h : makeTable set = some table) : 64 ≤ gridWidth table.widths := by
  obtain ⟨hheaders, -, hfits, -⟩ := makeTable_spec h
  have hsum := le_sum_widths fun _ => six_le_width h
  have hlen : table.widths.length = 9 := by
    rw [hfits.widths, hheaders]
    rfl
  rw [hlen] at hsum
  rw [gridWidth_eq, fenceAt, List.take_length]
  omega

theorem length_center (value : Text) (width : Nat) :
    (center value width).length = max value.length width := by
  simp only [center, List.length_append, List.length_replicate]
  omega

theorem length_toString (n : UInt64) : (toString n).toList.length ≤ 20 := by
  change n.toNat.repr.toList.length ≤ 20
  rw [Nat.toList_repr, Nat.length_toDigits_le_iff (by decide) (by decide)]
  exact n.toNat_lt.trans (by decide)

theorem length_sectionTitle (h : sectionTitle shift = some title) : title.length ≤ 64 := by
  rw [sectionTitle] at h
  split at h
  case isTrue =>
    cases h
    have hsize := length_toString ((1 : UInt64) <<< shift)
    have hshift := length_toString shift
    have hname : (toString "N = ").toList.length = 4 := rfl
    have hopen : (toString " (1 << ").toList.length = 7 := rfl
    have hclose : (toString ")").toList.length = 1 := rfl
    simp only [String.toList_append, List.length_append]
    omega
  case isFalse => cases h

-- ---------------------------------------------------------------------------
-- The section
-- ---------------------------------------------------------------------------

/-- The lines of one set, between empty ones: its own title and its whole table,
which can be read. -/
def PrintsEntry (max_width : Nat) (set : BenchSet) (lines : List Text) : Prop :=
  ∃ title table printed, sectionTitle set.shift = some title ∧ makeTable set = some table ∧
    printTable table = some printed ∧
    lines = [[], center title max_width] ++ printed ++ [[]] ∧
    Legible set table.widths printed ∧ gridWidth table.widths ≤ max_width

theorem printEntry_spec (hmake : makeTable set = some table)
    (hprint : printEntry max_width (set.shift, table) = some lines)
    (hle : gridWidth table.widths ≤ max_width) : PrintsEntry max_width set lines := by
  obtain ⟨title, htitle, h⟩ := Option.bind_eq_some_iff.mp hprint
  obtain ⟨printed, hprinted, heq⟩ := Option.bind_eq_some_iff.mp h
  cases heq
  obtain ⟨printed', hprinted', hlegible⟩ := printTable_legible hmake
  cases hprinted.symm.trans hprinted'
  exact ⟨title, table, printed, htitle, hmake, hprinted, rfl, hlegible, hle⟩

theorem PrintsEntry.length_le (h : PrintsEntry max_width set lines) (hline : line ∈ lines) :
    line.length ≤ max_width := by
  obtain ⟨title, table, printed, htitle, hmake, -, rfl, hlegible, hle⟩ := h
  have hmin := (le_gridWidth hmake).trans hle
  have := length_sectionTitle htitle
  have := length_center title max_width
  simp only [List.mem_append, List.mem_cons, List.not_mem_nil, or_false] at hline
  rcases hline with ((rfl | rfl) | hline) | rfl
  · exact Nat.zero_le _
  · omega
  · rw [(hlegible.grid line hline).length]
    exact hle
  · exact Nat.zero_le _

/-- The lines of a section: a rule, the title, and what is printed for each set,
in order. The rule is as wide as the widest table, and no line is wider. -/
structure SectionFits (title : Text) (results : List BenchSet) (max_width : Nat)
    (lines : List Text) : Prop where
  parts : ∃ entries, lines = [List.replicate max_width '-', [], center title max_width] ++
    entries.flatten ∧ List.Forall₂ (PrintsEntry max_width) results entries
  length : ∀ line ∈ lines, line.length ≤ max_width
  widest : ∃ set ∈ results, ∃ table, makeTable set = some table ∧
    gridWidth table.widths = max_width

theorem foldl_max_spec (f : α → Nat) (l : List α) (start : Nat) :
    start ≤ l.foldl (fun m a => max m (f a)) start ∧
    (∀ a ∈ l, f a ≤ l.foldl (fun m a => max m (f a)) start) ∧
    (l.foldl (fun m a => max m (f a)) start = start ∨
      ∃ a ∈ l, f a = l.foldl (fun m a => max m (f a)) start) := by
  induction l generalizing start with
  | nil => exact ⟨le_rfl, nofun, .inl rfl⟩
  | cons a l ih =>
    obtain ⟨hle, hall, hwidest⟩ := ih (max start (f a))
    rw [List.foldl_cons]
    refine ⟨by omega, List.forall_mem_cons.mpr ⟨by omega, hall⟩, ?_⟩
    rcases hwidest with heq | ⟨b, hb, heq⟩
    · rcases Nat.le_total start (f a) with hmore | hless
      · exact .inr ⟨a, List.mem_cons_self, by omega⟩
      · exact .inl (by omega)
    · exact .inr ⟨b, List.mem_cons_of_mem a hb, heq⟩

theorem section_fits (h : printSection title results = some lines) (hne : results ≠ [])
    (htitle : title.length ≤ 64) : ∃ max_width, SectionFits title results max_width lines := by
  obtain ⟨tables, htables, h⟩ := Option.bind_eq_some_iff.mp h
  obtain ⟨sections, hsections, heq⟩ := Option.bind_eq_some_iff.mp h
  cases heq
  obtain ⟨-, hle, hwidest⟩ :=
    foldl_max_spec (fun t : UInt64 × Table => gridWidth t.2.widths) tables 0
  generalize tables.foldl (fun m t => max m (gridWidth t.2.widths)) 0 = max_width at *
  have hentries : List.Forall₂ (PrintsEntry max_width) results sections := by
    refine (mapM_mapM htables hsections).imp ?_
    rintro set lines ⟨t, ht, hset, hprint⟩
    obtain ⟨table, hmake, heq⟩ := Option.bind_eq_some_iff.mp hset
    cases heq
    exact printEntry_spec hmake hprint (hle _ ht)
  have htable : ∀ t ∈ tables, ∃ set ∈ results, makeTable set = some t.2 := by
    intro t ht
    obtain ⟨set, hmem, hset⟩ := (mapM_mem htables).2 t ht
    obtain ⟨table, hmake, heq⟩ := Option.bind_eq_some_iff.mp hset
    cases heq
    exact ⟨set, hmem, hmake⟩
  have hmin : 64 ≤ max_width := by
    obtain ⟨set, hset⟩ := List.exists_mem_of_ne_nil results hne
    obtain ⟨t, ht, hmem⟩ := (mapM_mem htables).1 set hset
    obtain ⟨table, hmake, heq⟩ := Option.bind_eq_some_iff.mp hmem
    cases heq
    exact (le_gridWidth hmake).trans (hle _ ht)
  refine ⟨max_width, ⟨sections, rfl, hentries⟩, ?_, ?_⟩
  · have := length_center title max_width
    refine List.forall_mem_cons.mpr ⟨by simp, List.forall_mem_cons.mpr ⟨Nat.zero_le _,
      List.forall_mem_cons.mpr ⟨by omega, fun line hline => ?_⟩⟩⟩
    obtain ⟨lines, hlines, hline⟩ := List.mem_flatten.mp hline
    obtain ⟨i, hi, rfl⟩ := List.mem_iff_getElem.mp hlines
    exact (hentries.get (by rw [hentries.length_eq]; exact hi) hi).length_le hline
  · rcases hwidest with rfl | ⟨t, ht, heq⟩
    · omega
    · obtain ⟨set, hmem, hmake⟩ := htable t ht
      exact ⟨set, hmem, t.2, hmake, heq⟩

def bareSet (shift : UInt64) : BenchSet :=
  let results := List.replicate 8 { counter := {}, sum := 0, lookups := 100000 }
  ⟨shift, results, results, results, results, results, results⟩

theorem bare_section_fits : ∃ lines max_width,
    printSection "Dense set of elements".toList [bareSet 8, bareSet 9] = some lines ∧
      SectionFits "Dense set of elements".toList [bareSet 8, bareSet 9] max_width lines := by
  have hok :
      (printSection "Dense set of elements".toList [bareSet 8, bareSet 9]).isSome = true := by
    decide +kernel
  obtain ⟨lines, hlines⟩ := Option.isSome_iff_exists.mp hok
  obtain ⟨max_width, hfits⟩ := section_fits hlines (List.cons_ne_nil _ _) (by decide)
  exact ⟨lines, max_width, hlines, hfits⟩

end BenchHashmaps.Report
