import RecordQuery.Draft

namespace RecordQuery

/-- What a piece of a statement does to a draft. The right query of a join is made on its own
between `beginRight` and `join`. -/
inductive Step where
  | distinct
  | selectAll
  | select (text : String)
  | selectCall (call : Call)
  | setAlias (name : String)
  | source (text : String)
  | clause (c : ConditionClause)
  | openGroup (connective : Connective)
  | closeGroup
  | test (connective : Connective) (p : Predicate)
  | beginRight
  | join (kind : JoinKind) (aliasName : Option String) (left : String) (operator : Operator)
      (right : String)
  | groupBy (text : String)
  | orderBy (text : String) (direction : Direction)
  | limit (n : Nat)
  | offset (n : Nat)

/-- A step with the byte at which its piece of the statement begins. -/
structure PlacedStep where
  position : Nat
  step : Step

/-- The innermost query that is being made, and those around it from the inside to the outside. -/
structure NestedDraft where
  inner : Draft
  around : List Draft

namespace NestedDraft

def ofDraft (d : Draft) : NestedDraft :=
  ⟨d, []⟩

def outermost (n : NestedDraft) : Draft :=
  n.around.getLast?.getD n.inner

/-- Does something to the innermost query. -/
def mapInner (n : NestedDraft) (f : Draft → Draft) : NestedDraft × Option BuildFault :=
  ({ n with inner := f n.inner }, none)

/-- Does something to the innermost query that may be refused. -/
def tryInner (n : NestedDraft) (f : Draft → Except BuildFault Draft) :
    NestedDraft × Option BuildFault :=
  let o := Outcome.ofExcept n.inner (f n.inner)
  ({ n with inner := o.draft }, o.fault)

def runInner (n : NestedDraft) (f : Draft → Outcome) : NestedDraft × Option BuildFault :=
  let o := f n.inner
  ({ n with inner := o.draft }, o.fault)

/-- Takes a step, as far as it goes. -/
def take (n : NestedDraft) : Step → NestedDraft × Option BuildFault
  | .distinct => n.mapInner Draft.setDistinct
  | .selectAll => n.mapInner Draft.all
  | .select text => n.runInner fun d => d.select text
  | .selectCall call => n.tryInner fun d => d.selectCall call
  | .setAlias name => n.tryInner fun d => d.setAlias name
  | .source text => n.mapInner fun d => d.setSource text
  | .clause c => n.mapInner fun d => d.setClause c
  | .openGroup connective => n.mapInner fun d => d.openGroup connective
  | .closeGroup => n.tryInner Draft.closeGroup
  | .test connective p => n.tryInner fun d => d.addTest connective p
  | .beginRight => (⟨.empty n.inner.settings, n.inner :: n.around⟩, none)
  | .join kind aliasName left operator right =>
    match n.around with
    | [] => (n, none)
    | d :: around =>
      let o := (Outcome.ofExcept d (d.join kind n.inner aliasName)).andThen fun d =>
        d.on left operator right
      (⟨o.draft, around⟩, o.fault)
  | .groupBy text => n.runInner fun d => d.addGroupBy text
  | .orderBy text direction => n.tryInner fun d => d.addOrderBy text direction
  | .limit count => n.mapInner fun d => d.setLimit count
  | .offset count => n.mapInner fun d => d.setOffset count

/-- Takes steps up to the first one that is refused. -/
def takeAll (n : NestedDraft) : List PlacedStep → NestedDraft × Option QueryError
  | [] => (n, none)
  | s :: rest =>
    match n.take s.step with
    | (next, none) => next.takeAll rest
    | (next, some fault) => (next, some (.parse s.position (.build fault)))

end NestedDraft

end RecordQuery
