import RecordQuery.Statement

namespace RecordQuery

/-- A call that changes a draft. -/
inductive Edit where
  | setGrouping (grouping : Bool)
  | select (text : String)
  | selectAll
  | selectCall (call : Call)
  | selectFunction (kind : FunctionKind) (fields : List String) (literals : List Value)
  | selectCount (field : String)
  | setAlias (name : String)
  | distinct
  | source (text : String)
  | beginClause (c : ConditionClause) (field : String) (operator : Operator) (operand : Value)
  | condition (connective : Connective) (field : String) (operator : Operator) (operand : Value)
  | openGroup (connective : Connective)
  | closeGroup
  | join (kind : JoinKind) (right : Draft) (aliasName : Option String)
  | on (left : String) (operator : Operator) (right : String)
  | groupBy (text : String)
  | orderBy (text : String) (direction : Direction)
  | setDirection (direction : Direction)
  | limit (n : Nat)
  | offset (n : Nat)
  | page (number size : Nat)

/-- The draft that a call joins. -/
def Edit.right? : Edit → Option Draft
  | .join _ right _ => some right
  | _ => none

namespace Draft

/-- What a call makes of a draft, and why it is refused, if it is. -/
def edit (d : Draft) : Edit → Outcome
  | .setGrouping grouping => .done (d.setGrouping grouping)
  | .select text => d.select text
  | .selectAll => .done d.all
  | .selectCall call => .ofExcept d (d.selectCall call)
  | .selectFunction kind fields literals => .ofExcept d (d.selectFunction kind fields literals)
  | .selectCount field => .ofExcept d (d.selectCount field)
  | .setAlias name => .ofExcept d (d.setAlias name)
  | .distinct => .done d.setDistinct
  | .source text => .done (d.setSource text)
  | .beginClause c field operator operand => d.beginClause c field operator operand
  | .condition connective field operator operand =>
    .ofExcept d (d.condition connective field operator operand)
  | .openGroup connective => .done (d.openGroup connective)
  | .closeGroup => .ofExcept d d.closeGroup
  | .join kind right aliasName => .ofExcept d (d.join kind right aliasName)
  | .on left operator right => d.on left operator right
  | .groupBy text => d.addGroupBy text
  | .orderBy text direction => .ofExcept d (d.addOrderBy text direction)
  | .setDirection direction => .ofExcept d (d.setDirection direction)
  | .limit n => .done (d.setLimit n)
  | .offset n => .done (d.setOffset n)
  | .page number size => .ofExcept d (d.page number size)

/-- The drafts that calls and statements make of empty ones, in any order. What a call or a
statement has done before it is refused is gone on with. -/
inductive Reached : Draft → Prop
  | empty (settings : QuerySettings) : Reached (.empty settings)
  | edit {d : Draft} (e : Edit) (reached : Reached d) (right : ∀ joined ∈ e.right?, Reached joined) :
      Reached (d.edit e).draft
  | read {d : Draft} (text : String) (reached : Reached d) : Reached (d.read text).1

/-- The draft behind several calls, whether they are refused or not. -/
def editAll (d : Draft) (edits : List Edit) : Draft :=
  edits.foldl (fun d e => (d.edit e).draft) d

theorem reached_editAll {d : Draft} (reached : d.Reached) {edits : List Edit}
    (rights : ∀ e ∈ edits, ∀ joined ∈ e.right?, joined.Reached) : (d.editAll edits).Reached := by
  induction edits generalizing d with
  | nil => exact reached
  | cons e rest ih =>
    obtain ⟨first, later⟩ := List.forall_mem_cons.mp rights
    exact ih (reached.edit e first) later

end Draft

theorem Outcome.of_ofExcept {P : Draft → Prop} {d : Draft} {done : Except BuildFault Draft}
    (refused : P d) (accepted : ∀ next, done = .ok next → P next) :
    P (Outcome.ofExcept d done).draft := by
  cases done with
  | error fault => exact refused
  | ok next => exact accepted next rfl

namespace NestedDraft

/-- What each step keeps, whether it is refused or not, all steps keep. -/
theorem takeAll_keeps {P : NestedDraft → Prop} {steps : List PlacedStep}
    (each : ∀ s ∈ steps, ∀ n, P n → P (n.take s.step).1) {n : NestedDraft} (holds : P n) :
    P (n.takeAll steps).1 := by
  induction steps generalizing n with
  | nil => exact holds
  | cons s rest ih =>
    obtain ⟨here, later⟩ := List.forall_mem_cons.mp each
    have first := here n holds
    rw [takeAll]
    split
    · rename_i taken
      rw [taken] at first
      exact ih later first
    · rename_i taken
      rw [taken] at first
      exact first

end NestedDraft

theorem Draft.read_eq_outermost (d : Draft) (text : String) :
    (d.read text).1 =
      ((NestedDraft.ofDraft d).takeAll (Statement.stepsOf text).1).1.outermost := by
  unfold Draft.read
  rcases Statement.stepsOf text with ⟨steps, e⟩
  dsimp only
  split
  · rename_i taken
    rw [taken]
  · rename_i taken
    rw [taken]

end RecordQuery
