import Std.Data.HashSet
import RecordQuery.Condition
import RecordQuery.Json.Writing

namespace RecordQuery

/-- A row, or what went wrong in the place of a row. -/
abbrev Item := Except QueryError Record

namespace Rows

/-- All rows, or the first error among them. -/
def collect : List Item → Except QueryError (List Record)
  | [] => .ok []
  | .error e :: _ => .error e
  | .ok r :: rest => (collect rest).map (r :: ·)

/-- The items of a stage that needs all rows at once. -/
def ofAll : Except QueryError (List Record) → List Item
  | .ok rows => rows.map .ok
  | .error e => [.error e]

/-- Does something to each row. -/
def mapRows (f : Record → Item) (items : List Item) : List Item :=
  items.map fun item => item.bind f

/-- Keeps the rows for which conditions hold. A row for which they fail leaves its error. -/
def filter (mode : Strictness) (conditions : ConditionTree) (items : List Item) : List Item :=
  items.filterMap fun item =>
    match item with
    | .error e => some (.error e)
    | .ok r =>
      match conditions.evaluate r mode with
      | .ok true => some (.ok r)
      | .ok false => none
      | .error e => some (.error e)

/-- Leaves out so many rows and goes on up to a limit. Errors count neither as left out nor as
taken, and nothing is read beyond the last row that is taken. -/
def page (skip : Nat) (limit : Option Nat) : List Item → List Item
  | [] => []
  | item :: rest =>
    if limit = some 0 then []
    else
      match item, skip with
      | .error e, _ => .error e :: page skip limit rest
      | .ok _, skip + 1 => page skip limit rest
      | .ok r, 0 => .ok r :: page 0 (limit.map (· - 1)) rest

/-- Leaves out the rows that were seen before. Rows are the same when their JSON texts are. -/
def unseen (seen : Std.HashSet String) : List Item → List Item
  | [] => []
  | .error e :: rest => .error e :: unseen seen rest
  | .ok r :: rest =>
    if seen.contains r.toJson then unseen seen rest
    else .ok r :: unseen (seen.insert r.toJson) rest

def distinct (items : List Item) : List Item :=
  unseen ∅ items

end Rows

end RecordQuery
