import RecordQuery.Text.Natural
import RecordQuery.Value

namespace RecordQuery.Value

/-- Whether null is loosely equal to a value that is not null. -/
def matchesNull : Value → Bool
  | .bool b => !b
  | .text s => s == ""
  | _ => false

/-- Loose equality of two values that are neither null, boolean nor both of one container kind:
as numbers when both are numbers, and otherwise as texts. -/
def scalarEq (a b : Value) : Bool :=
  match a.number?, b.number? with
  | some x, some y => x.compare? y == some .eq
  | _, _ =>
    match a, b with
    | .text s, .text t => s == t
    | _, _ => false

mutual

/-- Loose equality. Null goes with false and the empty text, a boolean with every value of its
truth, a number with the text that denotes it, and containers are compared part by part. -/
def looseEq : Value → Value → Bool
  | .null, .null => true
  | .null, b => matchesNull b
  | a, .null => matchesNull a
  | .bool a, .bool b => a == b
  | .bool a, b => a == b.truthy
  | a, .bool b => b == a.truthy
  | .array as, .array bs => looseEqItems as bs
  | .record as, .record bs => as.length == bs.length && looseEqFields as bs
  | a, b => scalarEq a b

def looseEqItems : List Value → List Value → Bool
  | [], [] => true
  | a :: as, b :: bs => looseEq a b && looseEqItems as bs
  | _, _ => false

/-- Whether every one of the fields has a loosely equal field of its key among the others. -/
def looseEqFields : List (String × Value) → List (String × Value) → Bool
  | [], _ => true
  | (k, v) :: rest, others =>
    (match others.lookup k with
      | some w => looseEq v w
      | none => false) && looseEqFields rest others

end

mutual

/-- Strict equality: the same kind and the same value. Doubles are compared by value, and the
order of the fields of a record does not matter. -/
def strictEq : Value → Value → Bool
  | .null, .null => true
  | .bool a, .bool b => a == b
  | .int a, .int b => a == b
  | .float a, .float b => a == b
  | .text a, .text b => a == b
  | .array as, .array bs => strictEqItems as bs
  | .record as, .record bs => as.length == bs.length && strictEqFields as bs
  | _, _ => false

def strictEqItems : List Value → List Value → Bool
  | [], [] => true
  | a :: as, b :: bs => strictEq a b && strictEqItems as bs
  | _, _ => false

def strictEqFields : List (String × Value) → List (String × Value) → Bool
  | [], _ => true
  | (k, v) :: rest, others =>
    (match others.lookup k with
      | some w => strictEq v w
      | none => false) && strictEqFields rest others

end

/-- The order of two texts by code points. -/
def compareTexts (s t : String) : Ordering :=
  Text.compareChars s.toList t.toList

/-- The order of two values in conditions: booleans with false first, numbers and numeric texts by
value, and other texts by code points. All other pairs are not ordered. -/
def compare? : Value → Value → Option Ordering
  | .null, _ => none
  | _, .null => none
  | .bool a, .bool b => some (compare a.toNat b.toNat)
  | a, b =>
    match a.number?, b.number? with
    | some x, some y => x.compare? y
    | _, _ =>
      match a, b with
      | .text s, .text t => some (compareTexts s t)
      | _, _ => none

/-- The place of a kind of value in sorted results. A numeric text stands among the numbers. -/
def rank : Value → Nat
  | .null => 0
  | .bool _ => 1
  | .int _ => 2
  | .float _ => 2
  | .text s => if (Number.ofText? s).isSome then 2 else 3
  | .array _ => 4
  | .record _ => 5

mutual

/-- The order of sorted results: by kind, then as in conditions. Doubles that are not ordered there
are ordered by their bits, arrays item by item and records by their size. -/
def sortOrder : Value → Value → Ordering
  | .array as, .array bs => sortOrderItems as bs
  | .record as, .record bs => compare as.length bs.length
  | a, b =>
    (compare a.rank b.rank).then
      (match a.compare? b with
        | some order => order
        | none =>
          match a, b with
          | .float x, .float y => compare (Double.totalKey x) (Double.totalKey y)
          | _, _ => .eq)

/-- Lexicographic order, in which the shorter of two lists that agree comes first. -/
def sortOrderItems : List Value → List Value → Ordering
  | [], [] => .eq
  | [], _ :: _ => .lt
  | _ :: _, [] => .gt
  | a :: as, b :: bs => (sortOrder a b).then (sortOrderItems as bs)

end

/-- Natural order of the bare texts, with null before everything else. -/
def naturalOrder : Value → Value → Ordering
  | .null, .null => .eq
  | .null, _ => .lt
  | _, .null => .gt
  | a, b => Text.naturalOrder a.toText b.toText

end RecordQuery.Value
