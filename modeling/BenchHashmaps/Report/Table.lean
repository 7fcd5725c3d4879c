import BenchHashmaps.Report

/-!
# The tables

From the results of all maps to the lines `main.cpp` prints. Nothing is
printed where a row has too few cells or a cell has no defined value; the text
is ASCII, a list of characters without the newlines.
-/

namespace BenchHashmaps.Report

abbrev Text := List Char

/-- The results of all maps for one number of keys, one result a batch size. -/
structure BenchSet where
  shift : UInt64
  boost : List BenchResult
  twoway : List BenchResult
  absl : List BenchResult
  fph : List BenchResult
  std_map : List BenchResult
  flat : List BenchResult

structure RowSpec where
  name : Text
  member : BenchSet → List BenchResult

structure Table where
  headers : List Text
  rows : List (List Text)
  widths : List Nat
  deriving DecidableEq, Repr

-- ---------------------------------------------------------------------------
-- `make_table`
-- ---------------------------------------------------------------------------

def kRows : List RowSpec :=
  [⟨"boost".toList, BenchSet.boost⟩, ⟨"twoway".toList, BenchSet.twoway⟩,
   ⟨"absl".toList, BenchSet.absl⟩, ⟨"fph".toList, BenchSet.fph⟩,
   ⟨"std".toList, BenchSet.std_map⟩, ⟨"flat".toList, BenchSet.flat⟩]

def headers : List Text :=
  "kind".toList :: BATCH_SIZE.map fun batch_size => (toString batch_size).toList

def makeRow (set : BenchSet) (row_spec : RowSpec) : Option (List Text) := do
  let cells ← (row_spec.member set).mapM formatCell
  some (row_spec.name :: cells.map String.toList)

/-- `row[idx]` of a row with too few cells is out of range. -/
def widen (idx width : Nat) (row : List Text) : Option Nat := do
  let cell ← row[idx]?
  some (max width cell.length)

def columnWidth (headers : List Text) (rows : List (List Text)) (idx : Nat) : Option Nat := do
  let width ← (headers :: rows).foldlM (widen idx) 0
  -- left + right padding
  some (width + 2)

def makeTable (set : BenchSet) : Option Table := do
  let rows ← kRows.mapM (makeRow set)
  let widths ← (List.range headers.length).mapM (columnWidth headers rows)
  some { headers, rows, widths }

-- ---------------------------------------------------------------------------
-- `print_table`
-- ---------------------------------------------------------------------------

def gridWidth (widths : List Nat) : Nat :=
  widths.foldl (fun width column_width => width + (column_width + 1)) 1

def alignCell (value : Text) (width : Nat) (right_align : Bool) : Text :=
  if value.length ≥ width then value
  else
    let padding := width - value.length
    if right_align then List.replicate padding ' ' ++ value
    else value ++ List.replicate padding ' '

/-- `widths[idx] - 2`, which wraps below 2. -/
def cellWidth (width : Nat) : Nat := if width < 2 then width + 2 ^ 64 - 2 else width - 2

def printRule (widths : List Nat) : Text :=
  widths.flatMap (fun width => '+' :: List.replicate width '-') ++ ['+']

def printCell (widths : List Nat) (right_align : List Bool) (row : List Text) (idx : Nat) :
    Option Text := do
  let align_right ← right_align[idx]?
  let cell ← row[idx]?
  let width ← widths[idx]?
  some ('|' :: ' ' :: alignCell cell (cellWidth width) align_right ++ [' '])

def printRow (widths : List Nat) (right_align : List Bool) (row : List Text) : Option Text := do
  let cells ← (List.range widths.length).mapM (printCell widths right_align row)
  some (cells.flatten ++ ['|'])

/-- All columns but the first; `right_align.front()` needs one. -/
def rightAlign (columns : Nat) : Option (List Bool) :=
  match List.replicate columns true with
  | [] => none
  | _ :: rest => some (false :: rest)

def printTable (table : Table) : Option (List Text) := do
  let right_align ← rightAlign table.headers.length
  let header ← printRow table.widths right_align table.headers
  let rows ← table.rows.mapM (printRow table.widths right_align)
  some ([printRule table.widths, header, printRule table.widths] ++ rows ++
    [printRule table.widths])

-- ---------------------------------------------------------------------------
-- `print_section`
-- ---------------------------------------------------------------------------

/-- The format `{:^{}}`. -/
def center (value : Text) (width : Nat) : Text :=
  let padding := width - value.length
  List.replicate (padding / 2) ' ' ++ value ++ List.replicate (padding - padding / 2) ' '

/-- `N = {} (1 << {})`; a shift by the width of the type is undefined. -/
def sectionTitle (shift : UInt64) : Option Text :=
  if shift < 64 then
    some s!"N = {(1 : UInt64) <<< shift} (1 << {shift})".toList
  else none

def printEntry (max_width : Nat) (entry : UInt64 × Table) : Option (List Text) := do
  let title ← sectionTitle entry.1
  let lines ← printTable entry.2
  some ([[], center title max_width] ++ lines ++ [[]])

def printSection (title : Text) (results : List BenchSet) : Option (List Text) := do
  let tables ← results.mapM fun entry => do
    let table ← makeTable entry
    some (entry.shift, table)
  let max_width := tables.foldl (fun max_width entry => max max_width (gridWidth entry.2.widths)) 0
  let sections ← tables.mapM (printEntry max_width)
  some ([List.replicate max_width '-', [], center title max_width] ++ sections.flatten)

end BenchHashmaps.Report
