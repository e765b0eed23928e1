import RecordQuery.Output.Cell
import RecordQuery.Text.Pieces

namespace RecordQuery.Output.Csv

/-- A quote inside of a quoted cell is written twice. -/
def doubled : List Char → List Char
  | [] => []
  | c :: rest => if c = '"' then '"' :: '"' :: doubled rest else c :: doubled rest

/-- A cell as it is written: between quotes if it has a comma, a quote or a line break in it. -/
def writtenCell (cs : List Char) : List Char :=
  if cs.contains ',' || cs.contains '"' || cs.contains '\n' then '"' :: doubled cs ++ ['"'] else cs

/-- A line of cells with commas between them. -/
def line (cells : List (List Char)) : List Char :=
  Text.joinChars [','] (cells.map writtenCell) ++ ['\n']

/-- A line with the names of the columns, and a line for each row. -/
def renderChars (rows : List Record) : List Char :=
  let columns := columns rows
  line (columns.map String.toList) ++ rows.flatMap fun r => line (columns.map (cell r))

end RecordQuery.Output.Csv
