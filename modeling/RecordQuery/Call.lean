import RecordQuery.Call.Kind
import RecordQuery.FieldPath

namespace RecordQuery

/-- An argument of a function: a field, a literal value, another call, or the star that stands for
the whole row. -/
inductive Argument where
  | field (path : FieldPath)
  | literal (v : Value)
  | call (kind : FunctionKind) (arguments : List Argument)
  | star

/-- The call of a function. -/
structure Call where
  kind : FunctionKind
  arguments : List Argument

mutual

/-- The notation of an argument in queries and plans. -/
def Argument.displayChars : Argument → List Char
  | .field path => path.text.toList
  | .literal v => v.displayChars
  | .call kind arguments => kind.name.toList ++ '(' :: Argument.displayList arguments ++ [')']
  | .star => ['*']

def Argument.displayList : List Argument → List Char
  | [] => []
  | [a] => Argument.displayChars a
  | a :: b :: rest => Argument.displayChars a ++ ',' :: ' ' :: Argument.displayList (b :: rest)

end

namespace Call

def toArgument (call : Call) : Argument :=
  .call call.kind call.arguments

def displayChars (call : Call) : List Char :=
  call.toArgument.displayChars

def display (call : Call) : String :=
  String.ofList call.displayChars

def isAggregate (call : Call) : Bool :=
  call.kind.isAggregate

/-- Why an argument may not be given to a function, if so: only COUNT takes a star, an aggregate
stands in no other call, and no call stands in an aggregate. -/
def argumentFault? (kind : FunctionKind) : Argument → Option BuildFault
  | .star => if kind = .count then none else some (.starRefused kind.name)
  | .call inner _ =>
    if inner.isAggregate then some (.nestedAggregate inner.name kind.name)
    else if kind.isAggregate then some (.aggregateArgument kind.name)
    else none
  | _ => none

/-- The call of a function, when it takes so many arguments and each one of them. -/
def make (kind : FunctionKind) (arguments : List Argument) : Except BuildFault Call :=
  if !kind.takes arguments.length then
    .error (.arity kind.name kind.arityText arguments.length)
  else
    match arguments.findSome? (argumentFault? kind) with
    | some fault => .error fault
    | none => .ok ⟨kind, arguments⟩

/-- The call of the function of a name. -/
def ofName (name : String) (arguments : List Argument) : Except QueryError Call :=
  match FunctionKind.ofName? name with
  | none => .error (.unknownFunction name)
  | some kind => (make kind arguments).mapError .build

end Call

end RecordQuery
