import RecordQuery.Call
import RecordQuery.Call.Scalar

namespace RecordQuery

/-- What an aggregate takes from every row: the value of a field, or the row as such. -/
inductive AggregateInput where
  | rows
  | field (path : FieldPath)

namespace AggregateInput

def ofCall (call : Call) : AggregateInput :=
  match call.arguments with
  | .field path :: _ => .field path
  | _ => .rows

/-- The value of a row. A row as such counts as a value that is not null. -/
def value (input : AggregateInput) (r : Record) : Except QueryError Value :=
  match input with
  | .rows => .ok (.bool true)
  | .field path => (r.lookupPath path .lenient).mapError .ofValue

end AggregateInput

/-- The sum of two integers, when it is one. -/
def addInt64? (a b : Int64) : Option Int64 :=
  int64? (a.toInt + b.toInt)

/-- What an aggregate has gathered so far. A sum is kept as an integer as long as it is one, and as
a double beside it. -/
inductive Tally where
  | count (n : Nat)
  | sum (whole : Option Int64) (total : Float)
  | mean (total : Float) (n : Nat)
  | least (v : Option Value)
  | greatest (v : Option Value)
  | texts (parts : List String)

namespace Tally

def start : FunctionKind → Tally
  | .sum => .sum (some 0) 0.0
  | .avg => .mean 0.0 0
  | .min => .least none
  | .max => .greatest none
  | .groupConcat => .texts []
  | _ => .count 0

/-- The integer sum after one more number. Once it is lost it stays lost. -/
def addWhole (whole : Option Int64) : Number → Option Int64
  | .int n => whole.bind fun sum => addInt64? sum n
  | .float _ => none

/-- Takes in one more value. Null changes nothing, and of equal values the first is the least and
the last the greatest. -/
def add (kind : FunctionKind) (tally : Tally) (v : Value) : Except QueryError Tally :=
  match tally with
  | .count n => .ok (.count (if v.isNull then n else n + 1))
  | .sum whole total => do
    match ← Scalar.number kind v with
    | none => pure (.sum whole total)
    | some n => pure (.sum (addWhole whole n) (total + n.toFloat))
  | .mean total n => do
    match ← Scalar.number kind v with
    | none => pure (.mean total n)
    | some x => pure (.mean (total + x.toFloat) (n + 1))
  | .least current =>
    .ok <| if v.isNull then .least current
      else match current with
        | none => .least (some v)
        | some w => .least (some (if v.sortOrder w == .lt then v else w))
  | .greatest current =>
    .ok <| if v.isNull then .greatest current
      else match current with
        | none => .greatest (some v)
        | some w => .greatest (some (if v.sortOrder w == .lt then w else v))
  | .texts parts => .ok (.texts (if v.isNull then parts else parts ++ [v.toText]))

/-- The mean of `n` numbers of a total, which is null without any number. -/
def meanOf (total : Float) (n : Nat) : Value :=
  if n = 0 then .null else .float (total / Float.ofNat n)

/-- The value that has been gathered. -/
def result (separator : String) : Tally → Value
  | .count n => .ofNat n
  | .sum (some n) _ => .int n
  | .sum none total => .float total
  | .mean total n => meanOf total n
  | .least v => v.getD .null
  | .greatest v => v.getD .null
  | .texts parts => .text (Text.join separator parts)

end Tally

/-- An aggregate that takes in one row after the other. -/
structure Accumulator where
  kind : FunctionKind
  input : AggregateInput
  separator : String
  tally : Tally

namespace Accumulator

/-- The separator of a list of texts: the second argument if it is a literal, and else a comma. -/
def separatorOf (call : Call) : String :=
  match call.arguments with
  | _ :: .literal v :: _ => v.toText
  | _ => ","

def start (call : Call) : Accumulator :=
  ⟨call.kind, .ofCall call, separatorOf call, .start call.kind⟩

def add (a : Accumulator) (r : Record) : Except QueryError Accumulator :=
  match a.input.value r with
  | .error e => .error e
  | .ok v => (a.tally.add a.kind v).map fun tally => { a with tally }

def result (a : Accumulator) : Value :=
  a.tally.result a.separator

end Accumulator

namespace Aggregate

/-- The numbers among values that are numeric or null. -/
def numbers (kind : FunctionKind) : List Value → Except QueryError (List Number)
  | [] => .ok []
  | v :: rest => do
    match ← Scalar.number kind v with
    | none => numbers kind rest
    | some n => pure (n :: (← numbers kind rest))

/-- The exact sum of integers, when every sum on the way to it is an integer. -/
def wholeSum? (sum : Int64) : List Number → Option Int64
  | [] => some sum
  | .int n :: rest => (addInt64? sum n).bind fun next => wholeSum? next rest
  | .float _ :: _ => none

def totalFrom (start : Float) (ns : List Number) : Float :=
  ns.foldl (fun total n => total + n.toFloat) start

/-- The sum of numbers: an integer where it can be, and otherwise the double that adding to minus
zero gives. -/
def sum (ns : List Number) : Value :=
  match wholeSum? 0 ns with
  | some n => .int n
  | none => .float (totalFrom (-0.0) ns)

/-- The first of the least values. -/
def least : List Value → Value
  | [] => .null
  | v :: rest => rest.foldl (fun best w => if best.sortOrder w == .gt then w else best) v

/-- The last of the greatest values. -/
def greatest : List Value → Value
  | [] => .null
  | v :: rest => rest.foldl (fun best w => if best.sortOrder w == .gt then best else w) v

/-- Computes an aggregate from the values of all rows at once. -/
def ofValues (call : Call) (values : List Value) : Except QueryError Value :=
  let present := values.filter fun v => !v.isNull
  match call.kind with
  | .count => .ok (.ofNat present.length)
  | .sum => (numbers call.kind values).map sum
  | .avg => (numbers call.kind values).map fun ns => Tally.meanOf (totalFrom 0.0 ns) ns.length
  | .min => .ok (least present)
  | .max => .ok (greatest present)
  | .groupConcat =>
    .ok (.text (Text.join (Accumulator.separatorOf call) (present.map Value.toText)))
  | kind => .error (.notAggregate kind.name)

/-- Computes an aggregate from all rows of a group at once. -/
def ofRows (call : Call) (rows : List Record) : Except QueryError Value := do
  let values ← rows.mapM (AggregateInput.ofCall call).value
  ofValues call values

end Aggregate

end RecordQuery
