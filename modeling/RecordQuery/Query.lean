import RecordQuery.Call
import RecordQuery.Condition
import RecordQuery.Locator
import RecordQuery.Text.Pieces

namespace RecordQuery

/-- How queries are made and run: whether AND binds tighter than the other connectives, and what
shuffled orders start from. -/
structure QuerySettings where
  grouping : Bool
  seed : Option Nat
  deriving DecidableEq, Repr

def QuerySettings.default : QuerySettings :=
  ⟨true, none⟩

/-- What a selected field is computed from. -/
inductive Expression where
  | path (p : FieldPath)
  | call (c : Call)

/-- A field of the output rows, with its key in them. -/
structure SelectedField where
  name : String
  expression : Expression
  isAlias : Bool

namespace Expression

def displayChars : Expression → List Char
  | .path p => p.text.toList
  | .call c => c.displayChars

def display (e : Expression) : String :=
  String.ofList e.displayChars

end Expression

namespace SelectedField

/-- A field whose key is the notation of what it is computed from. -/
def ofExpression (e : Expression) : SelectedField :=
  ⟨e.display, e, false⟩

def withAlias (f : SelectedField) (name : String) : SelectedField :=
  { f with name, isAlias := true }

def path? (f : SelectedField) : Option FieldPath :=
  match f.expression with
  | .path p => some p
  | .call _ => none

def call? (f : SelectedField) : Option Call :=
  match f.expression with
  | .path _ => none
  | .call c => some c

def isAggregate (f : SelectedField) : Bool :=
  match f.expression with
  | .path _ => false
  | .call c => c.isAggregate

def displayChars (f : SelectedField) : List Char :=
  f.expression.displayChars ++ if f.isAlias then " AS ".toList ++ f.name.toList else []

def display (f : SelectedField) : String :=
  String.ofList f.displayChars

end SelectedField

inductive JoinKind where
  | inner
  | left
  | right
  | full
  deriving DecidableEq, Repr

namespace JoinKind

def name : JoinKind → String
  | .inner => "INNER"
  | .left => "LEFT"
  | .right => "RIGHT"
  | .full => "FULL"

def keepsLeft : JoinKind → Bool
  | .left | .full => true
  | _ => false

def keepsRight : JoinKind → Bool
  | .right | .full => true
  | _ => false

end JoinKind

inductive Direction where
  | asc
  | desc
  | natural
  | shuffle
  deriving DecidableEq, Repr

def Direction.name : Direction → String
  | .asc => "ASC"
  | .desc => "DESC"
  | .natural => "NATSORT"
  | .shuffle => "SHUFFLE"

structure OrderKey where
  field : FieldPath
  direction : Direction
  deriving DecidableEq, Repr

def OrderKey.displayChars (key : OrderKey) : List Char :=
  key.field.text.toList ++ ' ' :: key.direction.name.toList

def OrderKey.display (key : OrderKey) : String :=
  String.ofList key.displayChars

/-- How the rows of two queries are joined. With an alias the right row is put into the left one
under it, and without one its fields are merged into the left row. -/
structure JoinTerms where
  kind : JoinKind
  aliasName : Option String
  leftKey : FieldPath
  operator : Operator
  rightKey : FieldPath
  deriving DecidableEq, Repr

/-- Two queries do not share rows, so the right one of a join stands for itself. -/
structure JoinWith (α : Type) where
  right : α
  terms : JoinTerms

/-- A finished query. -/
structure Query where
  selectAll : Bool
  fields : List SelectedField
  distinct : Bool
  locator : Option Locator
  joins : List (JoinWith Query)
  filter : ConditionTree
  having : ConditionTree
  groupBy : List FieldPath
  orderBy : List OrderKey
  limit : Option Nat
  offset : Option Nat
  settings : QuerySettings

abbrev Join := JoinWith Query

namespace Query

def hasAggregation (q : Query) : Bool :=
  !q.groupBy.isEmpty || q.fields.any SelectedField.isAggregate

def field? (q : Query) (name : String) : Option SelectedField :=
  q.fields.find? fun f => f.name == name

end Query

namespace Query

mutual

/-- The names of the files or datasets that a query reads. -/
def paths : Query → List String
  | { locator, joins, .. } => (locator.bind Locator.path).toList ++ joinPaths joins

def joinPaths : List (JoinWith Query) → List String
  | [] => []
  | ⟨right, _⟩ :: rest => paths right ++ joinPaths rest

end

end Query

/-- Texts with a comma and a blank between them. -/
def commaSeparated (parts : List (List Char)) : List Char :=
  Text.joinChars [',', ' '] parts

/-- Selected fields, with a star in front when all fields or none are selected. -/
def selectionChars (selectAll : Bool) (fields : List SelectedField) : List Char :=
  commaSeparated ((if selectAll || fields.isEmpty then [['*']] else []) ++
    fields.map SelectedField.displayChars)

namespace Query

/-- A clause of a query behind a blank, unless there is nothing in it. -/
def clause (word : String) (present : Bool) (body : List Char) : List Char :=
  if present then ' ' :: word.toList ++ ' ' :: body else []

mutual

/-- The canonical text of a query. -/
def displayChars : Query → List Char
  | { selectAll, fields, distinct, locator, joins, filter, having, groupBy, orderBy, limit,
      offset, settings := _ } =>
    "SELECT".toList ++ (if distinct then " DISTINCT".toList else []) ++
      ' ' :: selectionChars selectAll fields ++
      (match locator with
        | some l => clause "FROM" true l.displayChars
        | none => []) ++
      displayJoins joins ++
      clause "WHERE" (!filter.isEmpty) (Condition.displayChildren filter.children) ++
      clause "HAVING" (!having.isEmpty) (Condition.displayChildren having.children) ++
      clause "GROUP BY" (!groupBy.isEmpty)
        (commaSeparated (groupBy.map fun path => path.text.toList)) ++
      clause "ORDER BY" (!orderBy.isEmpty)
        (commaSeparated (orderBy.map OrderKey.displayChars)) ++
      (match offset with
        | some n => clause "OFFSET" true (Decimal.digitChars n)
        | none => []) ++
      (match limit with
        | some n => clause "LIMIT" true (Decimal.digitChars n)
        | none => [])

def displayJoins : List (JoinWith Query) → List Char
  | [] => []
  | ⟨right, terms⟩ :: rest =>
    ' ' :: terms.kind.name.toList ++ " JOIN (".toList ++ displayChars right ++ ')' ::
      (match terms.aliasName with
        | some aliasName => clause "AS" true aliasName.toList
        | none => []) ++
      clause "ON" true
        (terms.leftKey.text.toList ++ ' ' :: terms.operator.symbol.toList ++ ' ' ::
          terms.rightKey.text.toList) ++
      displayJoins rest

end

def display (q : Query) : String :=
  String.ofList q.displayChars

end Query

end RecordQuery
