import RecordQuery.Json.Writing
import RecordQuery.Output.Csv
import RecordQuery.Output.Table
import RecordQuery.Text.Case

namespace RecordQuery

inductive OutputFormat where
  | table
  | json
  | prettyJson
  | csv
  | line
  deriving DecidableEq, Repr

/-- The format of a name in any case. Names that are not known stand for tables. -/
def OutputFormat.ofName (name : String) : OutputFormat :=
  match Text.lower name with
  | "json" => .json
  | "jsonpretty" => .prettyJson
  | "json-pretty" => .prettyJson
  | "csv" => .csv
  | "line" => .line
  | _ => .table

namespace Output

/-- A line for each field. -/
def fieldLines (color : Bool) (r : Record) : List Char :=
  r.fields.flatMap fun (k, v) =>
    styled color .key k.toList ++ ':' :: ' ' :: cellChars v ++ ['\n']

/-- The fields of rows, with a line of dashes between two rows. -/
def lineChars (color : Bool) (rows : List Record) : List Char :=
  Text.joinChars (List.replicate 40 '-' ++ ['\n']) (rows.map (fieldLines color))

/-- The output of rows in a format. JSON is the same with and without color. -/
def render (format : OutputFormat) (color : Bool) (rows : List Record) : String :=
  match format, rows with
  | .json, _ => Json.write (.array (rows.map Value.ofRecord)) ++ "\n"
  | .prettyJson, _ => Json.writePretty (.array (rows.map Value.ofRecord)) ++ "\n"
  | _, [] => String.ofList (styled color .dimmed "No records found.".toList ++ ['\n'])
  | .table, _ => String.ofList (Table.renderChars color rows)
  | .csv, _ => String.ofList (Csv.renderChars rows)
  | .line, _ => String.ofList (lineChars color rows)

end Output

end RecordQuery
