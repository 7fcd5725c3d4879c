import BenchHashmaps.Lib.Agree
import BenchHashmaps.Lib.Text
import BenchHashmaps.Report.Exact
import BenchHashmaps.Report.Table

/-!
# What the tables show

Every line of a table is as wide as its grid and has the borders of its
columns in the same places. The cells and the numbers in them can be read back
off the printed lines, so that nothing is cut or run together.
-/

namespace BenchHashmaps.Report

open Lib (forall₂_getElem? mapM_some mapM_eq_some mapM_isSome mapM_forall mapM_map_eq strip
  strip_pad fenced fields fields_fenced fenceAt length_fenced getElem?_fenced mem_intercalate)

-- ---------------------------------------------------------------------------
-- Lines
-- ---------------------------------------------------------------------------

theorem gridWidth_eq (widths : List Nat) :
    gridWidth widths = fenceAt widths widths.length + 1 := by
  have hfold : ∀ start, widths.foldl (fun width column_width => width + (column_width + 1)) start =
      start + (widths.map (· + 1)).sum := by
    induction widths with
    | nil => exact fun start => rfl
    | cons width widths ih =>
      intro start
      rw [List.foldl_cons, ih, List.map_cons, List.sum_cons, Nat.add_assoc]
  rw [gridWidth, hfold, fenceAt, List.take_length, Nat.add_comm]

theorem printRule_eq (widths : List Nat) :
    printRule widths = fenced '+' (widths.map fun width => List.replicate width '-') := by
  rw [printRule, fenced, List.flatMap_map]

theorem alignCell_eq (value : Text) (width : Nat) (right_align : Bool) :
    ∃ m n, alignCell value width right_align =
      List.replicate m ' ' ++ value ++ List.replicate n ' ' ∧
      m + value.length + n = max value.length width := by
  rw [alignCell]
  split
  case isTrue h => exact ⟨0, 0, by simp, by omega⟩
  case isFalse h =>
    cases right_align with
    | true => exact ⟨width - value.length, 0, by simp, by omega⟩
    | false => exact ⟨0, width - value.length, by simp, by omega⟩

def RowFits (widths : List Nat) (row : List Text) : Prop :=
  ∀ idx width : Nat, widths[idx]? = some width →
    ∃ cell : Text, row[idx]? = some cell ∧ cell.length + 2 ≤ width

structure PrintedCell (width : Nat) (cell part : Text) : Prop where
  length : part.length = width
  bar : '|' ∉ cell → '|' ∉ part
  stripped : ' ' ∉ cell → strip ' ' part = cell

theorem printCell_spec {row : List Text} {right_align : List Bool} (h : RowFits widths row)
    (hidx : widths[idx]? = some width) (halign : idx < right_align.length) :
    ∃ cell part, row[idx]? = some cell ∧
      printCell widths right_align row idx = some ('|' :: part) ∧ PrintedCell width cell part := by
  obtain ⟨cell, hcell, hfits⟩ := h idx width hidx
  obtain ⟨m, n, heq, hlen⟩ := alignCell_eq cell (cellWidth width) right_align[idx]
  have hwidth : cellWidth width = width - 2 := if_neg (by omega)
  have hpart : ' ' :: alignCell cell (cellWidth width) right_align[idx] ++ [' '] =
      List.replicate (m + 1) ' ' ++ cell ++ List.replicate (n + 1) ' ' := by
    rw [heq, List.replicate_succ, List.replicate_succ']
    simp
  refine ⟨cell, List.replicate (m + 1) ' ' ++ cell ++ List.replicate (n + 1) ' ', hcell, ?_, ?_⟩
  · rw [printCell, List.getElem?_eq_getElem halign, hcell, hidx, ← hpart]
    rfl
  · exact
      { length := by
          simp only [List.length_append, List.length_replicate]
          omega
        bar := fun hbar => by simp [hbar]
        stripped := fun hblank => strip_pad hblank _ _ }

theorem printRow_spec {row : List Text} {right_align : List Bool} (h : RowFits widths row)
    (halign : widths.length ≤ right_align.length) :
    ∃ parts, printRow widths right_align row = some (fenced '|' parts) ∧
      parts.map List.length = widths ∧
      ((∀ cell ∈ row, '|' ∉ cell ∧ ' ' ∉ cell) →
        (∀ part ∈ parts, '|' ∉ part) ∧ parts.map (strip ' ') = row.take widths.length) := by
  have hcells : ∀ idx, ∃ cell part, ∀ width, widths[idx]? = some width → row[idx]? = some cell ∧
      printCell widths right_align row idx = some ('|' :: part) ∧ PrintedCell width cell part := by
    intro idx
    cases hidx : widths[idx]? with
    | none => exact ⟨[], [], nofun⟩
    | some width =>
      obtain ⟨hlt, -⟩ := List.getElem?_eq_some_iff.mp hidx
      obtain ⟨cell, part, hcell⟩ := printCell_spec h hidx (hlt.trans_le halign)
      exact ⟨cell, part, fun _ heq => by cases heq; exact hcell⟩
  choose cell part hpart using hcells
  have hat : ∀ idx, (hlt : idx < widths.length) → row[idx]? = some (cell idx) ∧
      printCell widths right_align row idx = some ('|' :: part idx) ∧
        PrintedCell widths[idx] (cell idx) (part idx) :=
    fun idx hlt => hpart idx _ (List.getElem?_eq_getElem hlt)
  refine ⟨(List.range widths.length).map part, ?_, ?_, fun hplain => ⟨?_, ?_⟩⟩
  · rw [printRow, mapM_some (g := fun idx => '|' :: part idx) fun idx hidx =>
      (hat idx (List.mem_range.mp hidx)).2.1, fenced, List.flatMap_map]
    rfl
  · refine List.ext_getElem (by simp) fun idx hlt hlt' => ?_
    simp only [List.getElem_map, List.getElem_range]
    exact (hat idx hlt').2.2.length
  · intro p hp
    obtain ⟨idx, hidx, rfl⟩ := List.mem_map.mp hp
    obtain ⟨hcell, -, hprinted⟩ := hat idx (List.mem_range.mp hidx)
    exact hprinted.bar (hplain _ (List.mem_of_getElem? hcell)).1
  · refine List.ext_getElem? fun idx => ?_
    by_cases hlt : idx < widths.length
    · obtain ⟨hcell, -, hprinted⟩ := hat idx hlt
      rw [List.getElem?_take_of_lt hlt, hcell, List.map_map, List.getElem?_map,
        List.getElem?_range hlt]
      exact congrArg some (hprinted.stripped (hplain _ (List.mem_of_getElem? hcell)).2)
    · rw [List.getElem?_eq_none (by simp; omega), List.getElem?_eq_none (by simp; omega)]

-- ---------------------------------------------------------------------------
-- Tables
-- ---------------------------------------------------------------------------

structure Table.Fits (table : Table) : Prop where
  widths : table.widths.length = table.headers.length
  headers : table.headers ≠ []
  rows : ∀ row ∈ table.headers :: table.rows, RowFits table.widths row

/-- A line as wide as the grid, with a border at each column. -/
structure OnGrid (widths : List Nat) (text : Text) : Prop where
  length : text.length = gridWidth widths
  border : ∀ k ≤ widths.length,
    text[fenceAt widths k]? = some '+' ∨ text[fenceAt widths k]? = some '|'

theorem onGrid_fenced {parts : List Text} (hsep : sep = '+' ∨ sep = '|') :
    OnGrid (parts.map List.length) (fenced sep parts) := by
  refine ⟨?_, fun k hk => ?_⟩
  · rw [length_fenced, gridWidth_eq, List.length_map]
  · rw [List.length_map] at hk
    rw [getElem?_fenced sep parts hk]
    exact hsep.imp (congrArg some) (congrArg some)

theorem onGrid_printRule (widths : List Nat) : OnGrid widths (printRule widths) := by
  let rules : List Text := widths.map fun width => List.replicate width '-'
  have hwidths : rules.map List.length = widths := by
    rw [List.map_map]
    exact (List.map_congr_left fun _ _ => List.length_replicate).trans (List.map_id' widths)
  have hgrid : OnGrid (rules.map List.length) (fenced '+' rules) := onGrid_fenced (.inl rfl)
  rw [hwidths] at hgrid
  rw [printRule_eq]
  exact hgrid

def readRow (line : Text) : List Text := (fields '|' line).map (strip ' ')

theorem printRow_reads {row : List Text} {right_align : List Bool} (h : RowFits widths row)
    (halign : widths.length ≤ right_align.length) (hne : widths ≠ []) :
    ∃ line, printRow widths right_align row = some line ∧ OnGrid widths line ∧
      ((∀ cell ∈ row, '|' ∉ cell ∧ ' ' ∉ cell) → readRow line = row.take widths.length) := by
  obtain ⟨parts, hprint, hwidths, hplain⟩ := printRow_spec h halign
  refine ⟨_, hprint, hwidths ▸ onGrid_fenced (.inr rfl), fun hcells => ?_⟩
  obtain ⟨hbar, hstrip⟩ := hplain hcells
  have hparts : parts ≠ [] := by
    rintro rfl
    exact hne hwidths.symm
  rw [readRow, fields_fenced hparts hbar, hstrip]

theorem printTable_spec {table : Table} (h : table.Fits) :
    ∃ header rows, printTable table = some ([printRule table.widths, header,
        printRule table.widths] ++ rows ++ [printRule table.widths]) ∧
      (∀ line ∈ header :: rows, OnGrid table.widths line) ∧
      ((∀ row ∈ table.headers :: table.rows, ∀ cell ∈ row, '|' ∉ cell ∧ ' ' ∉ cell) →
        (header :: rows).map readRow =
          (table.headers :: table.rows).map (List.take table.headers.length)) := by
  obtain ⟨first, others, hheaders⟩ := List.exists_cons_of_ne_nil h.headers
  let right_align := false :: List.replicate others.length true
  have halign : table.widths.length ≤ right_align.length := by
    rw [h.widths, hheaders, List.length_cons, List.length_cons, List.length_replicate]
  have hne : table.widths ≠ [] := by
    intro hnil
    have hlen := h.widths
    rw [hnil, hheaders] at hlen
    cases hlen
  let print (row : List Text) : Text := (printRow table.widths right_align row).getD []
  have hrow : ∀ row ∈ table.headers :: table.rows,
      printRow table.widths right_align row = some (print row) ∧
      OnGrid table.widths (print row) ∧
      ((∀ cell ∈ row, '|' ∉ cell ∧ ' ' ∉ cell) →
        readRow (print row) = row.take table.headers.length) := by
    intro row hmem
    obtain ⟨line, hline, hgrid, hread⟩ := printRow_reads (h.rows row hmem) halign hne
    have hprint : print row = line := by
      change (printRow table.widths right_align row).getD [] = line
      rw [hline, Option.getD_some]
    rw [hprint, ← h.widths]
    exact ⟨hline, hgrid, hread⟩
  refine ⟨print table.headers, table.rows.map print, ?_, ?_, fun hplain => ?_⟩
  · have hright : rightAlign table.headers.length = some right_align := by
      rw [hheaders]
      rfl
    rw [printTable, hright, Option.bind_eq_bind, Option.bind_some, (hrow _ List.mem_cons_self).1,
      mapM_some fun row hmem => (hrow row (List.mem_cons_of_mem _ hmem)).1]
    rfl
  · rw [← List.map_cons]
    intro line hline
    obtain ⟨row, hmem, rfl⟩ := List.mem_map.mp hline
    exact (hrow row hmem).2.1
  · rw [← List.map_cons, List.map_map]
    exact List.map_congr_left fun row hmem => (hrow row hmem).2.2 (hplain row hmem)

-- ---------------------------------------------------------------------------
-- Column widths
-- ---------------------------------------------------------------------------

theorem widen_isSome (idx : Nat) (rows : List (List Text)) (start : Nat) :
    (rows.foldlM (widen idx) start).isSome ↔ ∀ row ∈ rows, idx < row.length := by
  induction rows generalizing start with
  | nil => simp
  | cons row rows ih =>
    rw [List.foldlM_cons, List.forall_mem_cons, widen]
    cases hcell : row[idx]? with
    | none =>
      have hlen := List.getElem?_eq_none_iff.mp hcell
      exact iff_of_false nofun fun h => absurd h.1 (by omega)
    | some cell =>
      obtain ⟨hlt, -⟩ := List.getElem?_eq_some_iff.mp hcell
      rw [and_iff_right hlt]
      exact ih _

theorem widen_spec {rows : List (List Text)} (h : rows.foldlM (widen idx) start = some width) :
    (∀ row ∈ rows, ∃ cell : Text, row[idx]? = some cell ∧ cell.length ≤ width) ∧ start ≤ width ∧
      (width = start ∨
        ∃ row ∈ rows, ∃ cell : Text, row[idx]? = some cell ∧ cell.length = width) := by
  induction rows generalizing start with
  | nil =>
    cases h
    exact ⟨nofun, le_rfl, .inl rfl⟩
  | cons row rows ih =>
    rw [List.foldlM_cons, widen] at h
    cases hcell : row[idx]? with
    | none =>
      rw [hcell] at h
      cases h
    | some cell =>
      rw [hcell] at h
      have h : rows.foldlM (widen idx) (max start cell.length) = some width := h
      obtain ⟨hrows, hle, hwidest⟩ := ih h
      refine ⟨List.forall_mem_cons.mpr ⟨⟨cell, hcell, by omega⟩, hrows⟩, by omega, ?_⟩
      rcases hwidest with hmax | ⟨row', hrow', hcell'⟩
      · rcases Nat.le_total start cell.length with hmore | hless
        · exact .inr ⟨row, List.mem_cons_self, cell, hcell, by omega⟩
        · exact .inl (by omega)
      · exact .inr ⟨row', List.mem_cons_of_mem row hrow', hcell'⟩

theorem columnWidth_isSome (headers : List Text) (rows : List (List Text)) (idx : Nat) :
    (columnWidth headers rows idx).isSome ↔ ∀ row ∈ headers :: rows, idx < row.length := by
  rw [← widen_isSome idx (headers :: rows) 0, columnWidth]
  cases (headers :: rows).foldlM (widen idx) 0 <;> simp

theorem columnWidth_spec {headers : List Text} (h : columnWidth headers rows idx = some width) :
    (∀ row ∈ headers :: rows, ∃ cell : Text, row[idx]? = some cell ∧ cell.length + 2 ≤ width) ∧
      (width = 2 ∨ ∃ row ∈ headers :: rows, ∃ cell : Text,
        row[idx]? = some cell ∧ cell.length + 2 = width) := by
  obtain ⟨widest, hwidest, heq⟩ := Option.bind_eq_some_iff.mp h
  cases heq
  obtain ⟨hrows, -, hmax⟩ := widen_spec hwidest
  constructor
  · intro row hrow
    obtain ⟨cell, hcell, hlen⟩ := hrows row hrow
    exact ⟨cell, hcell, by omega⟩
  · rcases hmax with hzero | ⟨row, hrow, cell, hcell, hlen⟩
    · exact .inl (by omega)
    · exact .inr ⟨row, hrow, cell, hcell, by omega⟩

-- ---------------------------------------------------------------------------
-- Cells
-- ---------------------------------------------------------------------------

/-- The numbers behind a cell, where they are defined. -/
def shownCycles (result : BenchResult) : UInt64 :=
  let cycles := (result.counter.core result.counter.cycles).scale.getD 0
  if result.lookups = 0 then 0 else cycles / result.lookups

def shownRate (result : BenchResult) (rate : Rate) : String :=
  hitRatePercent ((rate.accesses result.counter).scale.getD 0)
    ((rate.misses result.counter).scale.getD 0)

def readCell (cell : Text) : List Text := cell.splitOn '/'

theorem isDigit_of_mem_toString (n : UInt64) : ∀ c ∈ (toString n).toList, c.isDigit := by
  intro c hc
  change c ∈ n.toNat.repr.toList at hc
  rw [Nat.toList_repr] at hc
  exact Nat.isDigit_of_mem_toDigits (by decide) (by decide) hc

theorem mem_hitRatePercent (accesses misses : UInt64) :
    ∀ c ∈ (hitRatePercent accesses misses).toList, c.isDigit ∨ c = 'n' ∨ c = 'a' := by
  rw [hitRatePercent]
  split
  case isTrue =>
    intro c hc
    have hna : c ∈ ['n', 'a'] := hc
    rw [List.mem_pair] at hna
    exact .inr hna
  split
  case isTrue =>
    intro c hc
    have hzero : c ∈ ['0'] := hc
    rw [List.mem_singleton.mp hzero]
    exact .inl rfl
  case isFalse => exact fun c hc => .inl (isDigit_of_mem_toString _ c hc)

theorem formatCell_spec (h : formatCell result = some cell) :
    cell = toString (shownCycles result) ++ "/" ++ shownRate result .branch ++ "/" ++
      shownRate result .l1d ++ "/" ++ shownRate result .llc := by
  simp only [formatCell, Option.bind_eq_bind, Option.bind_eq_some_iff] at h
  obtain ⟨cycles, hcycles, branches, hbranches, missed_branches, hmissed, l1d_accesses, hl1d,
    l1d_misses, hl1d_misses, llc_accesses, hllc, llc_misses, hllc_misses, heq⟩ := h
  have hshown : shownCycles result = if result.lookups = 0 then 0 else cycles / result.lookups := by
    have hscale : (result.counter.core result.counter.cycles).scale = some cycles := hcycles
    rw [shownCycles, hscale, Option.getD_some]
  have hrate : ∀ {rate : Rate} {accesses misses : UInt64},
      (rate.accesses result.counter).scale = some accesses →
      (rate.misses result.counter).scale = some misses →
      shownRate result rate = hitRatePercent accesses misses := by
    intro rate accesses misses ha hm
    rw [shownRate, ha, hm, Option.getD_some, Option.getD_some]
  have hbranch : shownRate result .branch = _ := hrate hbranches hmissed
  have hl1d : shownRate result .l1d = _ := hrate hl1d hl1d_misses
  have hllc : shownRate result .llc = _ := hrate hllc hllc_misses
  rw [hshown, hbranch, hl1d, hllc]
  exact (Option.some.inj heq).symm

def cellFields (result : BenchResult) : List Text :=
  [(toString (shownCycles result)).toList, (shownRate result .branch).toList,
   (shownRate result .l1d).toList, (shownRate result .llc).toList]

theorem toList_cell (h : formatCell result = some cell) :
    cell.toList = ['/'].intercalate (cellFields result) := by
  rw [formatCell_spec h]
  simp [cellFields]

theorem mem_cellFields (hf : field ∈ cellFields result) (hc : c ∈ field) :
    c.isDigit ∨ c = 'n' ∨ c = 'a' := by
  simp only [cellFields, List.mem_cons, List.not_mem_nil, or_false] at hf
  rcases hf with rfl | rfl | rfl | rfl
  · exact .inl (isDigit_of_mem_toString _ c hc)
  · exact mem_hitRatePercent _ _ c hc
  · exact mem_hitRatePercent _ _ c hc
  · exact mem_hitRatePercent _ _ c hc

theorem readCell_eq (h : formatCell result = some cell) :
    readCell cell.toList = cellFields result := by
  rw [readCell, toList_cell h, List.splitOn_intercalate]
  · intro field hf hc
    rcases mem_cellFields hf hc with hc | hc | hc <;> exact absurd hc (by decide)
  · exact List.cons_ne_nil _ _

/-- Text that cannot be taken for a border or its padding. -/
def Plain (cell : Text) : Prop := '|' ∉ cell ∧ ' ' ∉ cell

theorem cell_plain (h : formatCell result = some cell) : Plain cell.toList := by
  have hmem : ∀ c ∈ cell.toList, c = '/' ∨ c.isDigit ∨ c = 'n' ∨ c = 'a' := by
    intro c hc
    rw [toList_cell h] at hc
    rcases mem_intercalate hc with hsep | ⟨field, hf, hc⟩
    · exact .inl (List.mem_singleton.mp hsep)
    · exact .inr (mem_cellFields hf hc)
  constructor
  · intro hc
    rcases hmem _ hc with h | h | h | h <;> exact absurd h (by decide)
  · intro hc
    rcases hmem _ hc with h | h | h | h <;> exact absurd h (by decide)

-- ---------------------------------------------------------------------------
-- `make_table`
-- ---------------------------------------------------------------------------

variable {set : BenchSet} {row_spec : RowSpec} {table : Table}

theorem headers_plain : ∀ cell ∈ headers, Plain cell := by
  change ∀ cell ∈ headers, '|' ∉ cell ∧ ' ' ∉ cell
  decide

theorem kRows_plain : ∀ row_spec ∈ kRows, Plain row_spec.name := by
  rw [kRows]
  simp only [List.forall_mem_cons, Plain]
  decide

theorem length_headers : headers.length = BATCH_SIZE.length + 1 := by
  rw [headers, List.length_cons, List.length_map]

theorem makeRow_isSome : (makeRow set row_spec).isSome ↔
    ∀ result ∈ row_spec.member set, (formatCell result).isSome := by
  rw [← mapM_isSome, makeRow]
  cases (row_spec.member set).mapM formatCell <;> simp

theorem makeRow_spec (h : makeRow set row_spec = some row) : ∃ cells : List String,
    (row_spec.member set).mapM formatCell = some cells ∧
      row = row_spec.name :: cells.map String.toList := by
  obtain ⟨cells, hcells, heq⟩ := Option.bind_eq_some_iff.mp h
  cases heq
  exact ⟨cells, hcells, rfl⟩

theorem length_makeRow (h : makeRow set row_spec = some row) :
    row.length = (row_spec.member set).length + 1 := by
  obtain ⟨cells, hcells, rfl⟩ := makeRow_spec h
  rw [List.length_cons, List.length_map, (mapM_eq_some.mp hcells).length_eq]

theorem makeTable_isSome (set : BenchSet) :
    (makeTable set).isSome ↔ ∀ row_spec ∈ kRows,
      BATCH_SIZE.length ≤ (row_spec.member set).length ∧
        ∀ result ∈ row_spec.member set, (formatCell result).isSome := by
  simp only [forall_and, ← makeRow_isSome]
  rw [← mapM_isSome, makeTable]
  cases hrows : kRows.mapM (makeRow set) with
  | none => simp
  | some rows =>
    have hlong : (∀ row_spec ∈ kRows, BATCH_SIZE.length ≤ (row_spec.member set).length) ↔
        ∀ row ∈ rows, headers.length ≤ row.length :=
      mapM_forall hrows fun row_spec row h => by
        rw [length_makeRow h, length_headers, Nat.add_le_add_iff_right]
    have hwidths : ((List.range headers.length).mapM (columnWidth headers rows)).isSome ↔
        ∀ row ∈ rows, headers.length ≤ row.length := by
      simp only [mapM_isSome, columnWidth_isSome, List.mem_range, List.forall_mem_cons]
      constructor
      · intro h row hrow
        have hlast := (h (headers.length - 1) (by decide)).2 row hrow
        have hpos : 0 < headers.length := by decide
        omega
      · exact fun h idx hidx => ⟨hidx, fun row hrow => hidx.trans_le (h row hrow)⟩
    rw [hlong, ← hwidths, Option.bind_eq_bind, Option.bind_some]
    cases (List.range headers.length).mapM (columnWidth headers rows) <;> simp

theorem makeTable_spec (h : makeTable set = some table) :
    table.headers = headers ∧ kRows.mapM (makeRow set) = some table.rows ∧
      table.Fits ∧ ∀ idx width : Nat, table.widths[idx]? = some width →
        ∃ row ∈ table.headers :: table.rows, ∃ cell : Text,
          row[idx]? = some cell ∧ cell.length + 2 = width := by
  obtain ⟨rows, hrows, h⟩ := Option.bind_eq_some_iff.mp h
  obtain ⟨widths, hwidths, heq⟩ := Option.bind_eq_some_iff.mp h
  cases heq
  have hall := mapM_eq_some.mp hwidths
  have hlen : widths.length = headers.length := by
    rw [← hall.length_eq, List.length_range]
  have hwidth : ∀ idx width : Nat, widths[idx]? = some width →
      columnWidth headers rows idx = some width := by
    intro idx width hidx
    rcases forall₂_getElem? hall idx with ⟨-, hnone⟩ | ⟨i, w, hi, hw, hcol⟩
    · cases hnone.symm.trans hidx
    · cases hw.symm.trans hidx
      obtain ⟨hlt, hget⟩ := List.getElem?_eq_some_iff.mp hi
      rw [List.getElem_range] at hget
      exact hget ▸ hcol
  refine ⟨rfl, hrows, ⟨hlen, List.cons_ne_nil _ _, ?_⟩, ?_⟩
  · intro row hrow idx width hidx
    exact (columnWidth_spec (hwidth idx width hidx)).1 row hrow
  · intro idx width hidx
    obtain ⟨hrow, hwidest⟩ := columnWidth_spec (hwidth idx width hidx)
    rcases hwidest with rfl | hwidest
    · obtain ⟨cell, hcell, hle⟩ := hrow headers List.mem_cons_self
      exact ⟨headers, List.mem_cons_self, cell, hcell, by omega⟩
    · exact hwidest

-- ---------------------------------------------------------------------------
-- Reading a table back
-- ---------------------------------------------------------------------------

/-- The lines of a printed table that are not rules. -/
def readLines (lines : List Text) : List (List Text) :=
  (lines.getD 1 [] :: (lines.drop 3).dropLast).map readRow

def readCells (row : List Text) : Text × List (List Text) := (row.headD [], row.tail.map readCell)

/-- What a table is to show of a map: one cell a batch size. -/
def shownRow (set : BenchSet) (row_spec : RowSpec) : Text × List (List Text) :=
  (row_spec.name, ((row_spec.member set).take BATCH_SIZE.length).map cellFields)

/-- Every line is on the grid, and the numbers are those of the set. -/
structure Legible (set : BenchSet) (widths : List Nat) (lines : List Text) : Prop where
  grid : ∀ line ∈ lines, OnGrid widths line
  headers : (readLines lines).head? = some headers
  rows : (readLines lines).tail.map readCells = kRows.map (shownRow set)

theorem makeRow_plain (h : makeRow set row_spec = some row) :
    Plain row_spec.name ↔ ∀ cell ∈ row, Plain cell := by
  obtain ⟨cells, hcells, rfl⟩ := makeRow_spec h
  have hplain : ∀ cell ∈ cells, Plain cell.toList :=
    (mapM_forall hcells (p := fun _ => True) fun _ _ hcell =>
      iff_of_true trivial (cell_plain hcell)).mp fun _ _ => trivial
  rw [List.forall_mem_cons, List.forall_mem_map]
  exact (and_iff_left hplain).symm

theorem readCells_makeRow (h : makeRow set row_spec = some row) :
    readCells (row.take headers.length) = shownRow set row_spec := by
  obtain ⟨cells, hcells, rfl⟩ := makeRow_spec h
  have hread : (cells.map String.toList).map readCell = (row_spec.member set).map cellFields := by
    rw [List.map_map]
    exact mapM_map_eq hcells fun result cell hcell => readCell_eq hcell
  rw [length_headers, List.take_succ_cons, readCells, List.headD_cons, List.tail_cons,
    List.map_take, hread, ← List.map_take]
  rfl

theorem printTable_legible (h : makeTable set = some table) :
    ∃ lines, printTable table = some lines ∧ Legible set table.widths lines := by
  obtain ⟨hheaders, hrows, hfits, -⟩ := makeTable_spec h
  obtain ⟨header, rows, hprint, hgrid, hread⟩ := printTable_spec hfits
  have hplain : ∀ row ∈ table.headers :: table.rows, ∀ cell ∈ row, Plain cell := by
    rw [hheaders]
    exact List.forall_mem_cons.mpr ⟨headers_plain,
      (mapM_forall hrows fun _ _ => makeRow_plain).mp kRows_plain⟩
  have hread := hread hplain
  rw [hheaders] at hread
  have hlines : readLines ([printRule table.widths, header, printRule table.widths] ++ rows ++
      [printRule table.widths]) = (header :: rows).map readRow := by
    simp [readLines]
  refine ⟨_, hprint, ?_⟩
  exact
    { grid := by
        have hrule := onGrid_printRule table.widths
        intro line hline
        simp only [List.mem_append, List.mem_cons, List.not_mem_nil, or_false] at hline
        rcases hline with ((rfl | rfl | rfl) | hline) | rfl
        · exact hrule
        · exact hgrid _ List.mem_cons_self
        · exact hrule
        · exact hgrid _ (List.mem_cons_of_mem header hline)
        · exact hrule
      headers := by
        rw [hlines, hread, List.map_cons, List.head?_cons, List.take_length]
      rows := by
        rw [hlines, hread, List.map_cons, List.tail_cons, List.map_map]
        exact mapM_map_eq hrows fun _ _ => readCells_makeRow }

/-- A table can be printed when every map has a result for each batch size and
the counters can be scaled. What is printed is legible. -/
theorem table_legible_iff (set : BenchSet) :
    (∃ table lines, makeTable set = some table ∧ printTable table = some lines ∧
      Legible set table.widths lines) ↔
    ∀ row_spec ∈ kRows, BATCH_SIZE.length ≤ (row_spec.member set).length ∧
      ∀ result ∈ row_spec.member set, (formatCell result).isSome := by
  rw [← makeTable_isSome]
  constructor
  · rintro ⟨table, -, htable, -⟩
    exact Option.isSome_iff_exists.mpr ⟨table, htable⟩
  · intro h
    obtain ⟨table, htable⟩ := Option.isSome_iff_exists.mp h
    obtain ⟨lines, hprint, hlegible⟩ := printTable_legible htable
    exact ⟨table, lines, htable, hprint, hlegible⟩

end BenchHashmaps.Report
