import RecordQuery.Value.Order

namespace RecordQuery

namespace Record

/-- Writes a field. A key that is there keeps its place, a new one goes to the end. -/
def insertField (key : String) (value : Value) : List (String × Value) → List (String × Value)
  | [] => [(key, value)]
  | (k, v) :: rest => if k = key then (key, value) :: rest else (k, v) :: insertField key value rest

def eraseField (key : String) : List (String × Value) → List (String × Value)
  | [] => []
  | (k, v) :: rest => if k = key then rest else (k, v) :: eraseField key rest

def empty : Record :=
  ⟨[]⟩

def insert (r : Record) (key : String) (value : Value) : Record :=
  ⟨insertField key value r.fields⟩

def get? (r : Record) (key : String) : Option Value :=
  r.fields.lookup key

def contains (r : Record) (key : String) : Bool :=
  (r.get? key).isSome

/-- Takes a field away. The fields after it move up. -/
def erase (r : Record) (key : String) : Record :=
  ⟨eraseField key r.fields⟩

/-- Overwrites a field that is there. -/
def set (r : Record) (key : String) (value : Value) : Record :=
  if r.contains key then r.insert key value else r

def keys (r : Record) : List String :=
  r.fields.map Prod.fst

def values (r : Record) : List Value :=
  r.fields.map Prod.snd

def size (r : Record) : Nat :=
  r.fields.length

/-- The record that inserting the fields one after the other gives. -/
def ofFields (fields : List (String × Value)) : Record :=
  fields.foldl (fun r field => r.insert field.1 field.2) empty

/-- Inserts all fields of another record, which overwrite those of the same key. -/
def merge (r other : Record) : Record :=
  other.fields.foldl (fun r field => r.insert field.1 field.2) r

/-- The same keys, each with null. -/
def nullFilled (r : Record) : Record :=
  ⟨r.fields.map fun field => (field.1, .null)⟩

def display (r : Record) : String :=
  (Value.ofRecord r).display

/-- Equality of records as values, in which the order of the fields does not matter. -/
def sameAs (r other : Record) : Bool :=
  (Value.ofRecord r).strictEq (Value.ofRecord other)

end Record

end RecordQuery
