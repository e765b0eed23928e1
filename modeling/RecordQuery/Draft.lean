import RecordQuery.Condition.Draft
import RecordQuery.Query

namespace RecordQuery

/-- The clause that conditions are added to. -/
inductive ConditionClause where
  | filter
  | having
  deriving DecidableEq, Repr

/-- A join that has not been given its keys yet. -/
structure PendingJoin where
  kind : JoinKind
  right : Query
  aliasName : Option String

/-- A query while it is made. The last selected field may be given an alias as long as `aliasable`
holds. -/
structure Draft where
  settings : QuerySettings
  selectAll : Bool
  fields : List SelectedField
  aliasable : Bool
  distinct : Bool
  locator : Option Locator
  joins : List Join
  pending : Option PendingJoin
  filter : ConditionDraft
  having : ConditionDraft
  clause : ConditionClause
  groupBy : List FieldPath
  orderBy : List OrderKey
  limit : Option Nat
  offset : Option Nat

/-- What a step makes of a draft: the draft after it, and why it went no further, if it did not.
What a refused step has done before stays done. -/
structure Outcome where
  draft : Draft
  fault : Option BuildFault

namespace Outcome

def done (d : Draft) : Outcome :=
  ⟨d, none⟩

/-- A step that does all it has to do or nothing. -/
def ofExcept (d : Draft) : Except BuildFault Draft → Outcome
  | .ok next => ⟨next, none⟩
  | .error fault => ⟨d, some fault⟩

/-- Goes on with the draft unless the step was refused. -/
def andThen (o : Outcome) (step : Draft → Outcome) : Outcome :=
  match o.fault with
  | none => step o.draft
  | some _ => o

end Outcome

namespace Draft

def empty (settings : QuerySettings) : Draft where
  settings
  selectAll := false
  fields := []
  aliasable := false
  distinct := false
  locator := none
  joins := []
  pending := none
  filter := .empty settings.grouping
  having := .empty settings.grouping
  clause := .filter
  groupBy := []
  orderBy := []
  limit := none
  offset := none

/-- Turns the tighter binding of AND on or off for the conditions added from now on. -/
def setGrouping (d : Draft) (grouping : Bool) : Draft :=
  { d with
    settings := { d.settings with grouping }
    filter := d.filter.setGrouping grouping
    having := d.having.setGrouping grouping }

/-- The parts of a text between its commas, without blanks around them and without empty ones. -/
def commaParts (text : String) : List String :=
  ((Text.splitChars [','] text.toList).map Text.trimChars).filterMap fun part =>
    if part.isEmpty then none else some (String.ofList part)

/-- Whether a text begins with the alias of a join that has no keys yet. -/
def refersTo (aliasName text : List Char) : Bool :=
  aliasName.isPrefixOf text &&
    match text.drop aliasName.length with
    | [] => true
    | '.' :: _ => true
    | '[' :: ']' :: _ => true
    | _ => false

/-- Refuses a field of the alias of a join that has no keys yet. -/
def checkAlias (d : Draft) (text : String) : Except BuildFault Unit :=
  match d.pending.bind PendingJoin.aliasName with
  | some aliasName =>
    if refersTo aliasName.toList text.toList then .error (.pendingAlias aliasName) else .ok ()
  | none => .ok ()

/-- Forgets the selected fields and selects all of the record. -/
def all (d : Draft) : Draft :=
  { d with fields := [], selectAll := true, aliasable := false }

def addField (d : Draft) (f : SelectedField) : Except BuildFault Draft :=
  if d.fields.any fun g => g.name == f.name then .error (.alreadySelected f.name)
  else .ok { d with fields := d.fields ++ [f], aliasable := true }

def selectPath (d : Draft) (text : String) : Except BuildFault Draft := do
  d.checkAlias text
  let path ← FieldPath.forQuery text
  d.addField (.ofExpression (.path path))

def selectParts (d : Draft) : List String → Outcome
  | [] => .done d
  | part :: rest =>
    if part = "*" then selectParts d.all rest
    else
      match d.selectPath part with
      | .ok next => selectParts next rest
      | .error fault => ⟨d, some fault⟩

/-- Selects fields, separated by commas. A star among them selects all of the record. -/
def select (d : Draft) (text : String) : Outcome :=
  d.selectParts (commaParts text)

def selectCall (d : Draft) (call : Call) : Except BuildFault Draft :=
  d.addField (.ofExpression (.call call))

/-- Selects a function of fields and of literal values behind them. -/
def selectFunction (d : Draft) (kind : FunctionKind) (fields : List String)
    (literals : List Value) : Except BuildFault Draft := do
  let paths ← fields.mapM FieldPath.forQuery
  let call ← Call.make kind (paths.map Argument.field ++ literals.map Argument.literal)
  d.selectCall call

/-- Selects the number of rows that have a field, or of all rows for a star. -/
def selectCount (d : Draft) (field : String) : Except BuildFault Draft :=
  if Text.trim field = "*" then do
    let call ← Call.make .count [.star]
    d.selectCall call
  else d.selectFunction .count [field] []

def setDistinct (d : Draft) : Draft :=
  { d with distinct := true }

/-- Gives the last selected field another key. -/
def setAlias (d : Draft) (name : String) : Except BuildFault Draft :=
  let name := Text.trim name
  if name = "" then .error .emptyAlias
  else
    match d.fields.getLast? with
    | none => .error .aliasWithoutField
    | some last =>
      if d.aliasable then
        if last.name ≠ name ∧ d.fields.any (fun f => f.name == name) then .error (.aliasTaken name)
        else .ok { d with fields := d.fields.dropLast ++ [last.withAlias name], aliasable := false }
      else if last.isAlias then .error (.alreadyAliased last.expression.display)
      else .error .aliasWithoutField

/-- Sets the source of the records. -/
def setSource (d : Draft) (text : String) : Draft :=
  let locator := Locator.ofText text
  { d with locator := if locator.isAll then none else some locator }

def setClause (d : Draft) (clause : ConditionClause) : Draft :=
  { d with clause }

/-- Changes the conditions of the clause that is being written. -/
def mapConditions (d : Draft) (f : ConditionDraft → ConditionDraft) : Draft :=
  match d.clause with
  | .filter => { d with filter := f d.filter }
  | .having => { d with having := f d.having }

def conditions (d : Draft) : ConditionDraft :=
  match d.clause with
  | .filter => d.filter
  | .having => d.having

def addTest (d : Draft) (connective : Connective) (p : Predicate) : Except BuildFault Draft := do
  d.checkAlias p.field.text
  pure (d.mapConditions fun c => c.add connective (.test p))

/-- Adds a condition to the clause that is being written. -/
def condition (d : Draft) (connective : Connective) (field : String) (operator : Operator)
    (operand : Value) : Except BuildFault Draft := do
  let path ← FieldPath.forQuery field
  d.addTest connective ⟨path, operator, operand⟩

/-- Begins to write a clause with a first condition. -/
def beginClause (d : Draft) (clause : ConditionClause) (field : String) (operator : Operator)
    (operand : Value) : Outcome :=
  let d := d.setClause clause
  .ofExcept d (d.condition .and field operator operand)

def openGroup (d : Draft) (connective : Connective) : Draft :=
  d.mapConditions fun c => c.openGroup connective

def closeGroup (d : Draft) : Except BuildFault Draft := do
  let closed ← d.conditions.closeGroup
  pure (d.mapConditions fun _ => closed)

/-- Finishes the draft. Every join has to have its keys, and all parentheses have to be closed. -/
def build (d : Draft) : Except BuildFault Query :=
  match d.pending with
  | some pending => .error (.joinWithoutKeys pending.kind.name)
  | none => do
    let filter ← d.filter.tree
    let having ← d.having.tree
    pure {
      selectAll := d.selectAll
      fields := d.fields
      distinct := d.distinct
      locator := d.locator
      joins := d.joins
      filter
      having
      groupBy := d.groupBy
      orderBy := d.orderBy
      limit := d.limit
      offset := d.offset
      settings := d.settings }

/-- Joins the rows of another query, to be given keys next. -/
def join (d : Draft) (kind : JoinKind) (right : Draft) (aliasName : Option String) :
    Except BuildFault Draft :=
  match d.pending with
  | some pending => .error (.joinWithoutKeys pending.kind.name)
  | none =>
    let aliasName := aliasName.map Text.trim
    if aliasName = some "" then .error .emptyJoinAlias
    else do
      let right ← right.build
      pure { d with pending := some ⟨kind, right, aliasName⟩ }

/-- Gives the pending join its keys. A join whose keys are refused is given up. -/
def on (d : Draft) (left : String) (operator : Operator) (right : String) : Outcome :=
  match d.pending with
  | none => ⟨d, some .keysWithoutJoin⟩
  | some pending =>
    let d := { d with pending := none }
    .ofExcept d do
      let leftKey ← FieldPath.forQuery left
      let rightKey ← FieldPath.forQuery right
      let terms := ⟨pending.kind, pending.aliasName, leftKey, operator, rightKey⟩
      pure { d with joins := d.joins ++ [⟨pending.right, terms⟩] }

def groupByPath (d : Draft) (text : String) : Except BuildFault Draft := do
  d.checkAlias text
  let path ← FieldPath.forQuery text
  pure { d with groupBy := d.groupBy ++ [path] }

def groupByParts (d : Draft) : List String → Outcome
  | [] => .done d
  | part :: rest =>
    match d.groupByPath part with
    | .ok next => groupByParts next rest
    | .error fault => ⟨d, some fault⟩

/-- Groups the rows by fields, separated by commas. -/
def addGroupBy (d : Draft) (text : String) : Outcome :=
  d.groupByParts (commaParts text)

/-- Adds a key that the rows are ordered by. -/
def addOrderBy (d : Draft) (text : String) (direction : Direction) : Except BuildFault Draft := do
  d.checkAlias text
  let field ← FieldPath.forQuery text
  pure { d with orderBy := d.orderBy ++ [⟨field, direction⟩] }

/-- Changes the direction of the last key that the rows are ordered by. -/
def setDirection (d : Draft) (direction : Direction) : Except BuildFault Draft :=
  match d.orderBy.getLast? with
  | some key => .ok { d with orderBy := d.orderBy.dropLast ++ [{ key with direction }] }
  | none => .error (.directionWithoutKey direction.name)

def setLimit (d : Draft) (n : Nat) : Draft :=
  { d with limit := some n }

def setOffset (d : Draft) (n : Nat) : Draft :=
  { d with offset := some n }

/-- The greatest number of rows that can be counted. -/
def countLimit : Nat := Nat.pow 2 64 - 1

/-- Takes one page of rows. Pages are counted from one on. -/
def page (d : Draft) (number size : Nat) : Except BuildFault Draft :=
  if number = 0 then .error .pageZero
  else .ok { d with offset := some (min ((number - 1) * size) countLimit), limit := some size }

/-- The canonical text of the query, or a note that it is not complete. -/
def display (d : Draft) : String :=
  match d.build with
  | .ok q => q.display
  | .error fault => "<incomplete query: " ++ (QueryError.build fault).message ++ ">"

end Draft

end RecordQuery
