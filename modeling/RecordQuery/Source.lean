import RecordQuery.Locator
import RecordQuery.Rows

namespace RecordQuery

/-- Something that records can be read from, with a text that describes it. What a locator leads to
may fail to open, and may have errors among its records. -/
structure Source where
  describe : String
  records : Locator → Except QueryError (List Item)

namespace Source

def fault (f : SourceFault) : QueryError :=
  .source f

/-- The value that a path leads to, or the value itself without a path. -/
def follow (query : Option String) (v : Value) : Except QueryError Value :=
  match query with
  | none => .ok v
  | some text =>
    match FieldPath.ofText? text with
    | none => .error (.build (.invalidPath text))
    | some path =>
      match v with
      | .record fields =>
        match (⟨fields⟩ : Record).lookupPath path .strict with
        | .ok found => .ok found
        | .error _ => .error (fault (.missingPath text))
      | other => .error (fault (.wrongKind text other.typeName))

/-- An item of an array as a row. -/
def element : Value → Item
  | .record fields => .ok ⟨fields⟩
  | other => .error (fault (.notRecord other.typeName))

/-- The rows of a value: the items of an array, a record itself, and none for null. -/
def rowsOf : Value → Except QueryError (List Item)
  | .array items => .ok (items.map element)
  | .record fields => .ok [.ok ⟨fields⟩]
  | .null => .ok []
  | other => .error (fault (.notList other.typeName))

end Source

/-- Values in memory: one that is read without a name, and others with their names. -/
structure MemorySource where
  base : Value
  named : Record

namespace MemorySource

/-- Opens the value that a locator names. Its format does not matter. -/
def records (m : MemorySource) (locator : Locator) : Except QueryError (List Item) := do
  let v ← match locator.path with
    | none => pure m.base
    | some name =>
      match m.named.get? name with
      | some v => pure v
      | none => throw (Source.fault (.unknownDataset name))
  let found ← Source.follow locator.query v
  Source.rowsOf found

def toSource (m : MemorySource) : Source :=
  ⟨"[memory]", m.records⟩

end MemorySource

end RecordQuery
