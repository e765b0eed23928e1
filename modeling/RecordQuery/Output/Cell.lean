import RecordQuery.Record

namespace RecordQuery.Output

mutual

/-- The text of a value in an output, without quotes around texts. -/
def cellChars : Value → List Char
  | .null => "null".toList
  | .array items => '[' :: cellItems items ++ [']']
  | .record fields => '\x7b' :: cellFields fields ++ ['\x7d']
  | v => v.toText.toList

def cellItems : List Value → List Char
  | [] => []
  | [v] => cellChars v
  | v :: w :: rest => cellChars v ++ ',' :: ' ' :: cellItems (w :: rest)

def cellFields : List (String × Value) → List Char
  | [] => []
  | [(k, v)] => k.toList ++ ':' :: ' ' :: cellChars v
  | (k, v) :: field :: rest =>
    k.toList ++ ':' :: ' ' :: cellChars v ++ ',' :: ' ' :: cellFields (field :: rest)

end

/-- Adds the keys that are not among the columns yet. -/
def addColumns (columns : List String) : List String → List String
  | [] => columns
  | key :: rest =>
    addColumns (if columns.contains key then columns else columns ++ [key]) rest

/-- All keys of rows, in the order in which they first appear. -/
def columns (rows : List Record) : List String :=
  rows.foldl (fun columns r => addColumns columns r.keys) []

/-- The cell of a row in a column, which is empty without the field. -/
def cell (r : Record) (column : String) : List Char :=
  match r.get? column with
  | some v => cellChars v
  | none => []

end RecordQuery.Output
