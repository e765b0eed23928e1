import RecordQuery.Call.Aggregate
import RecordQuery.Json.Writing

namespace RecordQuery

/-- The value of a field for a function: from the output row as far as it is built, and otherwise
from the record that the row is made from. -/
def Record.argument (raw row : Record) (path : FieldPath) : Except QueryError Value :=
  match row.lookupPath path .strict with
  | .ok v => .ok v
  | .error _ => (raw.lookupPath path .lenient).mapError .ofValue

namespace Call

mutual

/-- The value of an argument. A call of an aggregate takes the record alone as its group. -/
def argumentValue (ambient : Ambient) (raw row : Record) : Argument → Except QueryError Value
  | .field path => raw.argument row path
  | .literal v => .ok v
  | .star => .ok (.ofRecord raw)
  | .call kind arguments =>
    if kind.isAggregate then Aggregate.ofRows ⟨kind, arguments⟩ [raw]
    else
      match argumentValues ambient raw row arguments with
      | .error e => .error e
      | .ok values => Scalar.compute ambient (raw.toJson ++ row.toJson) kind values

def argumentValues (ambient : Ambient) (raw row : Record) :
    List Argument → Except QueryError (List Value)
  | [] => .ok []
  | a :: rest =>
    match argumentValue ambient raw row a with
    | .error e => .error e
    | .ok v => (argumentValues ambient raw row rest).map (v :: ·)

end

/-- The value of a call in one row. -/
def evaluate (ambient : Ambient) (raw row : Record) (call : Call) : Except QueryError Value :=
  argumentValue ambient raw row call.toArgument

end Call

end RecordQuery
