import RecordQuery.Decimal.Digits
import RecordQuery.Output.Cell
import RecordQuery.Output.Style

namespace RecordQuery.Output.Table

/-- The widths of columns that hold headings and rows of cells. -/
def widths (headings : List (List Char)) (rows : List (List (List Char))) : List Nat :=
  rows.foldl (fun widths cells => List.zipWith (fun n cs => max n cs.length) widths cells)
    (headings.map List.length)

def padded (width : Nat) (cs : List Char) : List Char :=
  cs ++ List.replicate (width - cs.length) ' '

/-- A line between two parts of a table. -/
def rule (widths : List Nat) : List Char :=
  '+' :: Text.joinChars ['+'] (widths.map fun n => List.replicate (n + 2) '-') ++ ['+', '\n']

/-- A line of cells that have their widths. -/
def line (cells : List (List Char)) : List Char :=
  '|' :: Text.joinChars ['|'] (cells.map fun cs => ' ' :: cs ++ [' ']) ++ ['|', '\n']

/-- A table with a frame, and the number of its rows below it. Escape sequences do not count as
width, so headings get their style when they have their width. -/
def renderChars (color : Bool) (rows : List Record) : List Char :=
  let columns := columns rows
  let headings := columns.map String.toList
  let cells := rows.map fun r => columns.map (cell r)
  let widths := widths headings cells
  rule widths ++
    line ((List.zipWith padded widths headings).map (styled color .heading)) ++
    rule widths ++
    (cells.flatMap fun row => line (List.zipWith padded widths row)) ++
    rule widths ++
    styled color .dimmed (Decimal.digitChars rows.length ++ " row(s)".toList) ++ ['\n']

end RecordQuery.Output.Table
