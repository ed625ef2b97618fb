import Checkup.Text.Width

/-!
# Tables

Rows of cells under a header, with a border around them. A column is as wide as
its widest line; a cell may have several lines, and none is broken.

* `Table` — the header and the rows.
* `Table.render` — the lines of a table.
-/

namespace Checkup.Report

/-- A table; every row has as many cells as the header. -/
structure Table where
  /-- the titles of the columns -/
  header : List String
  /-- the cells, row by row -/
  rows : List (List String)
  deriving DecidableEq, Repr

namespace Table

/-- The lines of a text; there is always at least one. -/
def linesOf : List Char → List (List Char)
  | [] => [[]]
  | c :: rest =>
    if c = '\n' then [] :: linesOf rest
    else
      match linesOf rest with
      | [] => [[c]]
      | line :: more => (c :: line) :: more

/-- The lines of a cell. -/
def cellLines (cell : String) : List String := (linesOf cell.toList).map String.ofList

/-- The columns that a cell takes. -/
def cellWidth (cell : String) : Nat := ((cellLines cell).map Text.width).foldl max 0

/-- The width of every column. -/
def widths (t : Table) : List Nat :=
  (t.header :: t.rows).foldl
    (fun widths row => List.zipWith max widths (row.map cellWidth))
    (List.replicate t.header.length 0)

/-- Characters in a row. -/
def repeated (c : Char) (n : Nat) : String := String.ofList (List.replicate n c)

/-- A line with blanks after it up to a width, and one blank on each side. -/
def padded (width : Nat) (line : String) : String :=
  " " ++ line ++ repeated ' ' (width - Text.width line) ++ " "

/-- One line of a row, between borders. -/
def rowLine (widths : List Nat) (lines : List String) : String :=
  "│" ++ " ".intercalate (List.zipWith padded widths lines) ++ "│"

/-- The lines of a row; cells with fewer lines than others are filled up. -/
def rowLines (widths : List Nat) (row : List String) : List String :=
  let cells := row.map cellLines
  let height := (cells.map List.length).foldl max 0
  (List.range height).map fun n => rowLine widths (cells.map fun lines => lines.getD n "")

/-- A horizontal border between two corners. -/
def border (left line right : Char) (widths : List Nat) : String :=
  let inner := widths.foldl (fun n w => n + (w + 2)) 0 + (widths.length - 1)
  repeated left 1 ++ repeated line inner ++ repeated right 1

/-- The table as text. -/
def render (t : Table) : String :=
  let widths := t.widths
  "\n".intercalate <|
    [border '┌' '─' '┐' widths] ++ rowLines widths t.header ++ [border '╞' '═' '╡' widths] ++
      t.rows.flatMap (rowLines widths) ++ [border '└' '─' '┘' widths]

end Table

end Checkup.Report
