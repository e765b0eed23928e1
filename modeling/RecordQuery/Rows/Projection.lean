import RecordQuery.Call.Evaluation
import RecordQuery.Query
import RecordQuery.Rows

namespace RecordQuery

/-- The value of a selected field. A function takes its arguments from the output row as far as it
is built, and otherwise from the record. -/
def SelectedField.evaluate (ambient : Ambient) (f : SelectedField) (raw row : Record) :
    Except QueryError Value :=
  match f.expression with
  | .path path => (raw.lookupPath path .lenient).mapError .ofValue
  | .call call => call.evaluate ambient raw row

namespace Rows

/-- Adds selected fields to an output row, one after the other. -/
def addFields (ambient : Ambient) (raw : Record) : List SelectedField → Record → Item
  | [], row => .ok row
  | f :: rest, row =>
    match f.evaluate ambient raw row with
    | .error e => .error e
    | .ok v => addFields ambient raw rest (row.insert f.name v)

/-- The output row of a record. -/
def projectRow (ambient : Ambient) (selectAll : Bool) (fields : List SelectedField) (raw : Record) :
    Item :=
  addFields ambient raw fields (if selectAll then raw else .empty)

end Rows

end RecordQuery
