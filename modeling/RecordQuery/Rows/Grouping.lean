import RecordQuery.Rows.Projection

namespace RecordQuery

/-- What a row is grouped by in one field: nothing, or the JSON text of a value. -/
inductive KeyPart where
  | absent
  | written (text : String)
  deriving DecidableEq, Repr

def KeyPart.ofValue : Value → KeyPart
  | .null => .absent
  | v => .written (Json.write v)

/-- A group of rows: the first one of them, and what the aggregate of each selected field has
gathered, for those that are aggregates. -/
structure Bucket where
  first : Record
  gathered : List (Option Accumulator)

namespace Bucket

def start (fields : List SelectedField) (first : Record) : Bucket where
  first
  gathered := fields.map fun f =>
    match f.call? with
    | some call => if call.isAggregate then some (Accumulator.start call) else none
    | none => none

/-- Gathers from one more row, in the order of the fields. -/
def gather (r : Record) : List (Option Accumulator) → Except QueryError (List (Option Accumulator))
  | [] => .ok []
  | none :: rest => (gather r rest).map (none :: ·)
  | some a :: rest =>
    match a.add r with
    | .error e => .error e
    | .ok next => (gather r rest).map (some next :: ·)

def add (b : Bucket) (r : Record) : Except QueryError Bucket :=
  (gather r b.gathered).map fun gathered => { b with gathered }

/-- Adds selected fields to the output row of a group. Fields that are no aggregates are those of
the first row. -/
def addFields (ambient : Ambient) (first : Record) :
    List SelectedField → List (Option Accumulator) → Record → Item
  | f :: fields, some a :: gathered, row =>
    addFields ambient first fields gathered (row.insert f.name a.result)
  | f :: fields, none :: gathered, row =>
    match f.evaluate ambient first row with
    | .error e => .error e
    | .ok v => addFields ambient first fields gathered (row.insert f.name v)
  | _, _, row => .ok row

/-- The output row of a group. -/
def row (ambient : Ambient) (selectAll : Bool) (fields : List SelectedField) (b : Bucket) : Item :=
  addFields ambient b.first fields b.gathered (if selectAll then b.first else .empty)

end Bucket

namespace Rows

/-- The paths that rows are grouped by. The alias of a plain field stands for the field. -/
def groupPaths (groupBy : List FieldPath) (fields : List SelectedField) : List FieldPath :=
  groupBy.map fun path =>
    ((fields.find? fun f => f.isAlias && f.name == path.text).bind SelectedField.path?).getD path

def groupKey (paths : List FieldPath) (r : Record) : Except QueryError (List KeyPart) :=
  paths.mapM fun path =>
    match r.lookupPath path .lenient with
    | .ok v => .ok (.ofValue v)
    | .error e => .error (.ofValue e)

/-- Puts a row into the group of a key. A new key begins a group behind the others. -/
def addToGroup (fields : List SelectedField) (key : List KeyPart) (r : Record) :
    List (List KeyPart × Bucket) → Except QueryError (List (List KeyPart × Bucket))
  | [] => ((Bucket.start fields r).add r).map fun b => [(key, b)]
  | (k, b) :: rest =>
    if k = key then (b.add r).map fun b => (k, b) :: rest
    else (addToGroup fields key r rest).map ((k, b) :: ·)

/-- Puts rows into groups, up to the first error. -/
def groupInto (fields : List SelectedField) (paths : List FieldPath) :
    List (List KeyPart × Bucket) → List Item → Except QueryError (List (List KeyPart × Bucket))
  | groups, [] => .ok groups
  | _, .error e :: _ => .error e
  | groups, .ok r :: rest =>
    match groupKey paths r with
    | .error e => .error e
    | .ok key =>
      match addToGroup fields key r groups with
      | .error e => .error e
      | .ok groups => groupInto fields paths groups rest

/-- One row for each group, in the order in which the groups began. Rows that are not grouped make
one group, also if there are none. -/
def aggregate (ambient : Ambient) (selectAll : Bool) (fields : List SelectedField)
    (groupBy : List FieldPath) (items : List Item) : Except QueryError (List Record) := do
  let groups ← groupInto fields (groupPaths groupBy fields) [] items
  let buckets :=
    if groups.isEmpty && groupBy.isEmpty then [Bucket.start fields .empty]
    else groups.map Prod.snd
  collect (buckets.map fun b => b.row ambient selectAll fields)

end Rows

end RecordQuery
