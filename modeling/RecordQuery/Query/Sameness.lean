import RecordQuery.Query

namespace RecordQuery

mutual

/-- Whether two arguments are the same, with literals of the same kind and value. -/
def Argument.sameAs : Argument → Argument → Bool
  | .field a, .field b => a == b
  | .literal a, .literal b => a.strictEq b
  | .call kind arguments, .call kind' arguments' =>
    kind == kind' && Argument.sameList arguments arguments'
  | .star, .star => true
  | _, _ => false

def Argument.sameList : List Argument → List Argument → Bool
  | [], [] => true
  | a :: as, b :: bs => Argument.sameAs a b && Argument.sameList as bs
  | _, _ => false

end

def Call.sameAs (a b : Call) : Bool :=
  a.toArgument.sameAs b.toArgument

def Expression.sameAs : Expression → Expression → Bool
  | .path a, .path b => a == b
  | .call a, .call b => a.sameAs b
  | _, _ => false

/-- Whether two fields are the same. What they are computed from is written the same way, too: a
negative zero is the same number as zero, and another text. -/
def SelectedField.sameAs (a b : SelectedField) : Bool :=
  a.name == b.name && a.isAlias == b.isAlias && a.expression.display == b.expression.display &&
    a.expression.sameAs b.expression

def Predicate.sameAs (a b : Predicate) : Bool :=
  a.field == b.field && a.operator == b.operator && a.operand.strictEq b.operand

mutual

/-- Whether two conditions are the same, the connectives of first conditions included. -/
def Condition.sameAs : Condition → Condition → Bool
  | .test a, .test b => a.sameAs b
  | .group as, .group bs => Condition.sameChildren as bs
  | _, _ => false

def Condition.sameChildren : List (Connective × Condition) → List (Connective × Condition) → Bool
  | [], [] => true
  | (tag, a) :: as, (tag', b) :: bs =>
    tag == tag' && Condition.sameAs a b && Condition.sameChildren as bs
  | _, _ => false

end

/-- Whether elements at the same places of two lists are the same. -/
def sameLists (same : α → α → Bool) : List α → List α → Bool
  | [], [] => true
  | a :: as, b :: bs => same a b && sameLists same as bs
  | _, _ => false

mutual

/-- Whether two queries are the same in all of their parts, down to how paths are written. -/
def Query.sameAs : Query → Query → Bool
  | { selectAll, fields, distinct, locator, joins, filter, having, groupBy, orderBy, limit,
      offset, settings }, q =>
    selectAll == q.selectAll && sameLists SelectedField.sameAs fields q.fields &&
      distinct == q.distinct && locator == q.locator && Query.sameJoins joins q.joins &&
      Condition.sameChildren filter.children q.filter.children &&
      Condition.sameChildren having.children q.having.children && groupBy == q.groupBy &&
      orderBy == q.orderBy && limit == q.limit && offset == q.offset && settings == q.settings

def Query.sameJoins : List (JoinWith Query) → List (JoinWith Query) → Bool
  | [], [] => true
  | ⟨right, terms⟩ :: rest, ⟨right', terms'⟩ :: rest' =>
    Query.sameAs right right' && terms == terms' && Query.sameJoins rest rest'
  | _, _ => false

end

end RecordQuery
