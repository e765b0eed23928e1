import RecordQuery.FieldPath
import RecordQuery.Operator

namespace RecordQuery

/-- How a condition is joined to what stands before it. -/
inductive Connective where
  | and
  | or
  | xor
  deriving DecidableEq, Repr

namespace Connective

def symbol : Connective → String
  | .and => "AND"
  | .or => "OR"
  | .xor => "XOR"

def apply : Connective → Bool → Bool → Bool
  | .and, a, b => a && b
  | .or, a, b => a || b
  | .xor, a, b => a != b

/-- Joins a truth to those before it. The first one is taken as it is. -/
def fold (connective : Connective) (before : Option Bool) (b : Bool) : Bool :=
  match before with
  | none => b
  | some a => connective.apply a b

end Connective

/-- The comparison of one field with an operand. -/
structure Predicate where
  field : FieldPath
  operator : Operator
  operand : Value

/-- A condition is a predicate or conditions in parentheses, each with its connective. The
connective of a first condition means nothing. -/
inductive Condition where
  | test (predicate : Predicate)
  | group (children : List (Connective × Condition))

namespace Predicate

/-- The notation of an operand. The list of a membership test stands in parentheses. -/
def operandChars (p : Predicate) : List Char :=
  match p.operator, p.operand with
  | .inList, .array items => '(' :: Value.displayItems items ++ [')']
  | .notInList, .array items => '(' :: Value.displayItems items ++ [')']
  | _, v => v.displayChars

def displayChars (p : Predicate) : List Char :=
  p.field.text.toList ++ ' ' :: p.operator.symbol.toList ++ ' ' :: p.operandChars

def display (p : Predicate) : String :=
  String.ofList p.displayChars

def evaluate (p : Predicate) (r : Record) (mode : Strictness) : Except QueryError Bool :=
  match r.lookupPath p.field mode with
  | .ok v => .ok (p.operator.apply v p.operand)
  | .error e => .error (.ofValue e)

end Predicate

namespace Condition

mutual

def displayChars : Condition → List Char
  | .test p => p.displayChars
  | .group children => '(' :: displayChildren children ++ [')']

/-- Conditions with their connectives between them. -/
def displayChildren : List (Connective × Condition) → List Char
  | [] => []
  | (_, c) :: rest => displayChars c ++ displayRest rest

def displayRest : List (Connective × Condition) → List Char
  | [] => []
  | (connective, c) :: rest =>
    ' ' :: connective.symbol.toList ++ ' ' :: displayChars c ++ displayRest rest

end

mutual

/-- Evaluates all parts from left to right. The first error is the result, whether the truth of the
parts before it would settle the condition or not. -/
def evaluate (r : Record) (mode : Strictness) : Condition → Except QueryError Bool
  | .test p => p.evaluate r mode
  | .group children => (evaluateAll r mode none children).map fun truth => truth.getD true

def evaluateAll (r : Record) (mode : Strictness) (before : Option Bool) :
    List (Connective × Condition) → Except QueryError (Option Bool)
  | [] => .ok before
  | (connective, c) :: rest =>
    match evaluate r mode c with
    | .error e => .error e
    | .ok b => evaluateAll r mode (some (connective.fold before b)) rest

end

end Condition

/-- The conditions of a clause. Without any of them the clause holds. -/
structure ConditionTree where
  children : List (Connective × Condition)

namespace ConditionTree

def isEmpty (tree : ConditionTree) : Bool :=
  tree.children.isEmpty

def display (tree : ConditionTree) : String :=
  String.ofList (Condition.displayChildren tree.children)

def evaluate (tree : ConditionTree) (r : Record) (mode : Strictness) : Except QueryError Bool :=
  (Condition.group tree.children).evaluate r mode

end ConditionTree

end RecordQuery
