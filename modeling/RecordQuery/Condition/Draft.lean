import RecordQuery.Condition

namespace RecordQuery

/-- A pair of parentheses that is still open: the connective in front of it, the conditions settled
in it, and the conditions joined by AND that may still become a group. -/
structure OpenGroup where
  connective : Connective
  settled : List (Connective × Condition)
  run : List (Connective × Condition)

namespace OpenGroup

def empty (connective : Connective) : OpenGroup :=
  ⟨connective, [], []⟩

/-- Settles the run. More than one condition in it become a group with the connective of the first
one. -/
def settle (g : OpenGroup) : OpenGroup :=
  match g.run with
  | [] => g
  | [only] => { g with settled := g.settled ++ [only], run := [] }
  | (connective, c) :: rest =>
    { g with settled := g.settled ++ [(connective, .group ((connective, c) :: rest))], run := [] }

/-- The conditions of a group. A group that holds nothing but another group is that group. -/
def close (g : OpenGroup) : List (Connective × Condition) :=
  match g.settle.settled with
  | [(_, .group children)] => children
  | settled => settled

/-- Adds a condition. With `grouping`, conditions joined by AND bind tighter than the others, so a
run is settled before a condition with another connective begins the next one. -/
def add (g : OpenGroup) (grouping : Bool) (connective : Connective) (c : Condition) : OpenGroup :=
  if !grouping then { g with settled := g.settled ++ [(connective, c)] }
  else if !g.run.isEmpty && connective != .and then
    { g.settle with run := [(connective, c)] }
  else { g with run := g.run ++ [(connective, c)] }

end OpenGroup

/-- The conditions of a clause while they are added: the innermost open parentheses, those around
them from the inside to the outside, and whether AND binds tighter in what is added from now on. -/
structure ConditionDraft where
  grouping : Bool
  inner : OpenGroup
  outer : List OpenGroup

namespace ConditionDraft

def empty (grouping : Bool) : ConditionDraft :=
  ⟨grouping, .empty .and, []⟩

def setGrouping (d : ConditionDraft) (grouping : Bool) : ConditionDraft :=
  { d with grouping }

def add (d : ConditionDraft) (connective : Connective) (c : Condition) : ConditionDraft :=
  { d with inner := d.inner.add d.grouping connective c }

def openGroup (d : ConditionDraft) (connective : Connective) : ConditionDraft :=
  { d with inner := .empty connective, outer := d.inner :: d.outer }

/-- Closes the innermost parentheses. Empty ones leave nothing behind. -/
def closeGroup (d : ConditionDraft) : Except BuildFault ConditionDraft :=
  match d.outer with
  | [] => .error .groupNotOpen
  | around :: outer =>
    let closed := d.inner.close
    let d' : ConditionDraft := { d with inner := around, outer }
    .ok (if closed.isEmpty then d' else d'.add d.inner.connective (.group closed))

/-- The conditions added so far, when no parentheses are open. -/
def tree (d : ConditionDraft) : Except BuildFault ConditionTree :=
  match d.outer with
  | [] => .ok ⟨d.inner.close⟩
  | outer => .error (.groupsNotClosed outer.length)

end ConditionDraft

end RecordQuery
