namespace RecordQuery

/-- How a table came to be: as a table on the way to another one, by keys with points in them, or
by a header of its own. -/
inductive TableOrigin where
  | implied
  | dotted
  | header
  deriving DecidableEq, Repr

/-- A TOML value. Of numbers with a fraction and of times nothing is kept. Tables between braces
are closed, and the others may be added to. -/
inductive Toml where
  | bool (b : Bool)
  | int (n : Int)
  | fractional
  | text (s : String)
  | time
  | array (items : List Toml)
  | closed (fields : List (String × Toml))
  | table (origin : TableOrigin) (fields : List (String × Toml))
  | rows (tables : List (List (String × Toml)))

namespace Toml

/-- Replaces the value of a key that is there. -/
def replaceField (key : String) (v : Toml) (fields : List (String × Toml)) :
    List (String × Toml) :=
  fields.map fun field => if field.1 = key then (key, v) else field

/-- Adds a value under a new key. -/
def addField? (key : String) (v : Toml) (fields : List (String × Toml)) :
    Option (List (String × Toml)) :=
  match fields.lookup key with
  | some _ => none
  | none => some (fields ++ [(key, v)])

/-- Some tables with something done to the last one. -/
def changeLast? (f : List (String × Toml) → Option (List (String × Toml))) :
    List (List (String × Toml)) → Option (List (List (String × Toml)))
  | [] => none
  | [last] => (f last).map fun last => [last]
  | first :: rest => (changeLast? f rest).map (first :: ·)

/-- Adds a value under a key with points in it. The tables on the way may not have headers, and the
last one of them may not be there by a header of another table either. Of repeated tables on the
way the last one counts, though it has a header. -/
def addDotted? (key : String) (v : Toml) : List String → List (String × Toml) →
    Option (List (String × Toml))
  | [], fields => addField? key v fields
  | part :: rest, fields =>
    match fields.lookup part with
    | none => (addDotted? key v rest []).map fun inner => fields ++ [(part, .table .dotted inner)]
    | some (.table .dotted inner) =>
      (addDotted? key v rest inner).map fun inner =>
        replaceField part (.table .dotted inner) fields
    | some (.table .implied inner) =>
      if rest.isEmpty then none
      else
        (addDotted? key v rest inner).map fun inner =>
          replaceField part (.table .implied inner) fields
    | some (.rows tables) =>
      if rest.isEmpty then none
      else
        (changeLast? (addDotted? key v rest) tables).map fun tables =>
          replaceField part (.rows tables) fields
    | some _ => none

/-- Does something to the table at a path. Tables that are not there are made on the way, and of
repeated tables the last one counts. -/
def changeAt? (f : List (String × Toml) → Option (List (String × Toml))) :
    List String → List (String × Toml) → Option (List (String × Toml))
  | [], fields => f fields
  | part :: rest, fields =>
    match fields.lookup part with
    | none => (changeAt? f rest []).map fun inner => fields ++ [(part, .table .implied inner)]
    | some (.table origin inner) =>
      (changeAt? f rest inner).map fun inner => replaceField part (.table origin inner) fields
    | some (.rows tables) =>
      (changeLast? (changeAt? f rest) tables).map fun tables =>
        replaceField part (.rows tables) fields
    | some _ => none

/-- Gives a table its header, which it has only once. -/
def openTable? (key : String) (fields : List (String × Toml)) : Option (List (String × Toml)) :=
  match fields.lookup key with
  | none => some (fields ++ [(key, .table .header [])])
  | some (.table .implied inner) => some (replaceField key (.table .header inner) fields)
  | some _ => none

/-- Adds one more of repeated tables. -/
def openRow? (key : String) (fields : List (String × Toml)) : Option (List (String × Toml)) :=
  match fields.lookup key with
  | none => some (fields ++ [(key, .rows [[]])])
  | some (.rows tables) => some (replaceField key (.rows (tables ++ [[]])) fields)
  | some _ => none

end Toml

end RecordQuery
