import RecordQuery.Proofs.Draft.Reached
import RecordQuery.Proofs.Statement.Kept
import RecordQuery.Proofs.Statement.Position

namespace RecordQuery

/-- The call that is handed in to be selected. -/
def Edit.call? : Edit → Option Call
  | .selectCall call => some call
  | _ => none

/-- A kind of calls to which all belong that drafts make of fields and of literal values, and all
that they read from texts. -/
structure Call.IsKind (Q : Call → Prop) : Prop where
  make : ∀ {kind arguments c}, (∀ a ∈ arguments, ∀ inner others, a ≠ .call inner others) →
    Call.make kind arguments = .ok c → Q c
  read : ∀ {position name texts c}, Call.ofTexts position name texts = .ok c → Q c

/-- The selected fields of a query have a property, and so have those of the queries that it is
joined to. -/
inductive Query.FieldsAre (F : List SelectedField → Prop) : Query → Prop
  | intro {q : Query} (own : F q.fields) (rights : ∀ j ∈ q.joins, FieldsAre F j.right) :
      FieldsAre F q

theorem Query.FieldsAre.part {F : List SelectedField → Prop} {part q : Query}
    (all : q.FieldsAre F) (inside : part.PartOf q) : F part.fields := by
  induction inside with
  | self =>
    obtain ⟨own, -⟩ := all
    exact own
  | right member _ ih =>
    obtain ⟨-, rights⟩ := all
    exact ih (rights _ member)

/-- What one change does to selected fields. A field that is added has a key of its own, and so has
the last one when it gets another key. -/
inductive SelectionChange (Q : Call → Prop) (fields : List SelectedField) :
    List SelectedField → Prop
  | keeps : SelectionChange Q fields fields
  | clears : SelectionChange Q fields []
  | adds (e : Expression) (kind : ∀ c, e = .call c → Q c)
      (fresh : ∀ g ∈ fields, g.name ≠ e.display) :
      SelectionChange Q fields (fields ++ [.ofExpression e])
  | renames {front : List SelectedField} {last : SelectedField} (name : String)
      (all : fields = front ++ [last])
      (free : last.name = name ∨ ∀ g ∈ front, g.name ≠ name) :
      SelectionChange Q fields (front ++ [last.withAlias name])

/-- What one change does to joins and to the one that is pending. -/
inductive JoinChange (R : Query → Prop) (joins : List Join) (pending : Option PendingJoin) :
    List Join → Option PendingJoin → Prop
  | keeps : JoinChange R joins pending joins pending
  | opens (p : PendingJoin) (right : R p.right) : JoinChange R joins pending joins (some p)
  | drops : JoinChange R joins pending joins none
  | closes {p : PendingJoin} (waiting : pending = some p) (terms : JoinTerms) :
      JoinChange R joins pending (joins ++ [⟨p.right, terms⟩]) none

/-- Queries of a kind are only joined by others of that kind. -/
theorem JoinChange.rights {R : Query → Prop} {joins joins' : List Join}
    {pending pending' : Option PendingJoin} (change : JoinChange R joins pending joins' pending')
    (before : ∀ j ∈ joins, R j.right) (waiting : ∀ p ∈ pending, R p.right) :
    (∀ j ∈ joins', R j.right) ∧ ∀ p ∈ pending', R p.right := by
  cases change with
  | keeps => exact ⟨before, waiting⟩
  | opens p right => exact ⟨before, fun _ same => Option.some.inj same ▸ right⟩
  | drops => exact ⟨before, nofun⟩
  | closes found terms =>
    have right := waiting _ found
    exact ⟨List.forall_mem_append.mpr ⟨before, List.forall_mem_singleton.mpr right⟩, nofun⟩

namespace Draft

/-- What one change does to a draft that takes calls of one kind and joins queries of one kind. -/
structure Changes (Q : Call → Prop) (R : Query → Prop) (d d' : Draft) : Prop where
  fields : SelectionChange Q d.fields d'.fields
  joins : JoinChange R d.joins d.pending d'.joins d'.pending

section

variable {Q : Call → Prop} {R : Query → Prop} {d d' : Draft}

theorem Changes.refl (d : Draft) : d.Changes Q R d :=
  ⟨.keeps, .keeps⟩

theorem changes_mapConditions (d : Draft) (f : ConditionDraft → ConditionDraft) :
    d.Changes Q R (d.mapConditions f) := by
  unfold mapConditions
  cases d.clause <;> exact ⟨.keeps, .keeps⟩

theorem changes_openGroup (d : Draft) (connective : Connective) :
    d.Changes Q R (d.openGroup connective) :=
  d.changes_mapConditions _

theorem changes_all (d : Draft) : d.Changes Q R d.all :=
  ⟨.clears, .keeps⟩

theorem changes_addField {e : Expression} (kind : ∀ c, e = .call c → Q c)
    (added : d.addField (.ofExpression e) = .ok d') : d.Changes Q R d' := by
  obtain ⟨fresh, rfl⟩ := addField_ok added
  exact ⟨.adds e kind fresh, .keeps⟩

theorem changes_selectPath {text : String} (selected : d.selectPath text = .ok d') :
    d.Changes Q R d' := by
  obtain ⟨path, -, added⟩ := exists_path selected
  exact changes_addField (fun _ same => Expression.noConfusion same) added

theorem changes_selectCall {call : Call} (kind : Q call) (selected : d.selectCall call = .ok d') :
    d.Changes Q R d' :=
  changes_addField (fun _ same => Expression.call.inj same ▸ kind) selected

theorem changes_setAlias {name : String} (named : d.setAlias name = .ok d') :
    d.Changes Q R d' := by
  obtain ⟨front, last, all, free, rfl⟩ := setAlias_ok named
  exact ⟨.renames _ all free, .keeps⟩

theorem changes_addTest {connective : Connective} {p : Predicate}
    (added : d.addTest connective p = .ok d') : d.Changes Q R d' := by
  rw [addTest_ok added]
  exact changes_mapConditions _ _

theorem changes_condition {connective : Connective} {field : String} {operator : Operator}
    {operand : Value} (added : d.condition connective field operator operand = .ok d') :
    d.Changes Q R d' := by
  obtain ⟨path, -, added⟩ := exists_of_bind_ok added
  exact changes_addTest added

theorem changes_closeGroup (closed : d.closeGroup = .ok d') : d.Changes Q R d' := by
  obtain ⟨c, -, rfl⟩ := closeGroup_ok closed
  exact changes_mapConditions _ _

theorem changes_groupByPath {text : String} (grouped : d.groupByPath text = .ok d') :
    d.Changes Q R d' := by
  obtain ⟨path, -, grouped⟩ := exists_path grouped
  cases grouped
  exact ⟨.keeps, .keeps⟩

theorem changes_addOrderBy {text : String} {direction : Direction}
    (ordered : d.addOrderBy text direction = .ok d') : d.Changes Q R d' := by
  obtain ⟨path, -, ordered⟩ := exists_path ordered
  cases ordered
  exact ⟨.keeps, .keeps⟩

theorem changes_setDirection {direction : Direction}
    (directed : d.setDirection direction = .ok d') : d.Changes Q R d' := by
  unfold setDirection at directed
  split at directed
  · cases directed
    exact ⟨.keeps, .keeps⟩
  · cases directed

theorem changes_page {number size : Nat} (paged : d.page number size = .ok d') :
    d.Changes Q R d' := by
  unfold page at paged
  split at paged
  · cases paged
  · cases paged
    exact ⟨.keeps, .keeps⟩

theorem changes_join {kind : JoinKind} {right : Draft} {aliasName : Option String}
    (inside : ∀ q, right.build = .ok q → R q) (joined : d.join kind right aliasName = .ok d') :
    d.Changes Q R d' := by
  obtain ⟨q, pending, built, same, rfl⟩ := join_ok joined
  exact ⟨.keeps, .opens pending (same ▸ inside q built)⟩

/-- A join whose keys are refused is given up, and any other one is kept with its query. -/
theorem changes_on (d : Draft) (left : String) (operator : Operator) (right : String) :
    d.Changes Q R (d.on left operator right).draft := by
  unfold on
  cases waiting : d.pending with
  | none => exact .refl d
  | some pending =>
    refine Outcome.of_ofExcept (P := d.Changes Q R) ⟨.keeps, .drops⟩ fun next joined => ?_
    obtain ⟨leftKey, -, joined⟩ := exists_of_bind_ok joined
    obtain ⟨rightKey, -, joined⟩ := exists_of_bind_ok joined
    cases joined
    exact ⟨.keeps, .closes waiting _⟩

end

/-- A property of drafts that every change keeps. What is built of a draft with the property is of
the kind that is joined. -/
structure IsInvariant (Q : Call → Prop) (R : Query → Prop) (P : Draft → Prop) : Prop where
  calls : Call.IsKind Q
  empty : ∀ settings, P (.empty settings)
  change : ∀ {d d'}, P d → d.Changes Q R d' → P d'
  build : ∀ {d q}, P d → d.build = .ok q → R q

namespace IsInvariant

variable {Q : Call → Prop} {R : Query → Prop} {P : Draft → Prop} {d d' : Draft}
  (invariant : IsInvariant Q R P)
include invariant

theorem selectFunction (holds : P d) {kind : FunctionKind} {fields : List String}
    {literals : List Value} (selected : d.selectFunction kind fields literals = .ok d') :
    P d' := by
  obtain ⟨paths, -, selected⟩ := exists_of_bind_ok selected
  obtain ⟨call, made, selected⟩ := exists_of_bind_ok selected
  refine invariant.change holds (changes_selectCall (invariant.calls.make ?_ made) selected)
  intro a member inner others same
  rcases List.mem_append.mp member with field | literal
  · obtain ⟨path, -, rfl⟩ := List.mem_map.mp field
    cases same
  · obtain ⟨v, -, rfl⟩ := List.mem_map.mp literal
    cases same

theorem selectCount (holds : P d) {field : String} (selected : d.selectCount field = .ok d') :
    P d' := by
  unfold Draft.selectCount at selected
  split at selected
  · obtain ⟨call, made, selected⟩ := exists_of_bind_ok selected
    refine invariant.change holds (changes_selectCall (invariant.calls.make ?_ made) selected)
    exact List.forall_mem_singleton.mpr nofun
  · exact invariant.selectFunction holds selected

theorem selectParts (holds : P d) (parts : List String) : P (d.selectParts parts).draft :=
  of_selectParts holds parts (fun holds => invariant.change holds (changes_all _))
    fun holds selected => invariant.change holds (changes_selectPath selected)

theorem groupByParts (holds : P d) (parts : List String) : P (d.groupByParts parts).draft :=
  of_groupByParts holds parts fun holds grouped =>
    invariant.change holds (changes_groupByPath grouped)

/-- What a call does or leaves undone is one change or several ones. -/
theorem edit (holds : P d) {e : Edit} (given : ∀ call ∈ e.call?, Q call)
    (right : ∀ joined ∈ e.right?, P joined) : P (d.edit e).draft := by
  have tried {d : Draft} (holds : P d) {done : Except BuildFault Draft}
      (accepted : ∀ next, done = .ok next → d.Changes Q R next) :
      P (Outcome.ofExcept d done).draft :=
    Outcome.of_ofExcept holds fun next made => invariant.change holds (accepted next made)
  have kept {next : Draft} (changes : d.Changes Q R next) : P next :=
    invariant.change holds changes
  cases e with
  | select text => exact invariant.selectParts holds _
  | selectAll => exact kept d.changes_all
  | selectCall call => exact tried holds fun _ => changes_selectCall (given call rfl)
  | selectFunction => exact Outcome.of_ofExcept holds fun _ => invariant.selectFunction holds
  | selectCount => exact Outcome.of_ofExcept holds fun _ => invariant.selectCount holds
  | setAlias => exact tried holds fun _ => changes_setAlias
  | beginClause c =>
    have begun : P (d.setClause c) := kept ⟨.keeps, .keeps⟩
    exact tried begun fun _ => changes_condition
  | condition => exact tried holds fun _ => changes_condition
  | openGroup => exact kept (changes_openGroup _ _)
  | closeGroup => exact tried holds fun _ => changes_closeGroup
  | join kind joined =>
    exact tried holds fun _ => changes_join fun _ => invariant.build (right joined rfl)
  | on left operator key => exact kept (d.changes_on left operator key)
  | groupBy => exact invariant.groupByParts holds _
  | orderBy => exact tried holds fun _ => changes_addOrderBy
  | setDirection => exact tried holds fun _ => changes_setDirection
  | page => exact tried holds fun _ => changes_page
  | setGrouping | distinct | source | limit | offset => exact kept ⟨.keeps, .keeps⟩

/-- A step of a statement keeps the property of the query that is being made and of those around
it. -/
theorem take (n : NestedDraft) {s : Step} (selects : s.Selects Q)
    (holds : P n.inner ∧ ∀ d ∈ n.around, P d) :
    P (n.take s).1.inner ∧ ∀ d ∈ (n.take s).1.around, P d := by
  obtain ⟨inner, around⟩ := holds
  have tried {done : Except BuildFault Draft}
      (accepted : ∀ next, done = .ok next → n.inner.Changes Q R next) :
      P (Outcome.ofExcept n.inner done).draft ∧ ∀ d ∈ n.around, P d :=
    ⟨Outcome.of_ofExcept inner fun next made => invariant.change inner (accepted next made),
      around⟩
  have kept {next : Draft} (changes : n.inner.Changes Q R next) :
      P next ∧ ∀ d ∈ n.around, P d :=
    ⟨invariant.change inner changes, around⟩
  cases s with
  | select => exact ⟨invariant.selectParts inner _, around⟩
  | selectAll => exact kept (changes_all _)
  | selectCall => exact tried fun _ => changes_selectCall selects
  | setAlias => exact tried fun _ => changes_setAlias
  | openGroup => exact kept (changes_openGroup _ _)
  | closeGroup => exact tried fun _ => changes_closeGroup
  | test => exact tried fun _ => changes_addTest
  | beginRight => exact ⟨invariant.empty _, List.forall_mem_cons.mpr ⟨inner, around⟩⟩
  | join kind aliasName left operator right =>
    cases nested : n.around with
    | nil =>
      simp only [NestedDraft.take, nested]
      exact ⟨inner, List.forall_mem_nil _⟩
    | cons d rest =>
      simp only [NestedDraft.take, nested]
      rw [nested] at around
      obtain ⟨outside, later⟩ := List.forall_mem_cons.mp around
      refine ⟨?_, later⟩
      cases joined : d.join kind n.inner aliasName with
      | error fault => exact outside
      | ok next =>
        have opened := changes_join (Q := Q) (fun _ => invariant.build inner) joined
        have waiting := invariant.change outside opened
        exact invariant.change waiting (next.changes_on left operator right)
  | groupBy => exact ⟨invariant.groupByParts inner _, around⟩
  | orderBy => exact tried fun _ => changes_addOrderBy
  | distinct | source | clause | limit | offset => exact kept ⟨.keeps, .keeps⟩

theorem text (holds : P d) (text : String) : P (d.read text).1 := by
  rw [read_eq_outermost]
  have selects : ∀ s ∈ (Statement.stepsOf text).1, s.step.Selects Q :=
    Statement.selects_stepsOf fun _ _ _ _ _ _ => invariant.calls.read
  have start : P (NestedDraft.ofDraft d).inner ∧ ∀ e ∈ (NestedDraft.ofDraft d).around, P e :=
    ⟨holds, List.forall_mem_nil _⟩
  obtain ⟨inner, around⟩ := NestedDraft.takeAll_keeps
    (P := fun n => P n.inner ∧ ∀ d ∈ n.around, P d)
    (fun s member n => invariant.take n (selects s member)) start
  exact NestedDraft.outermost_of_forall inner around

end IsInvariant

/-- The drafts that are reached when every call that is handed in is of one kind. -/
inductive ReachedWith (Q : Call → Prop) : Draft → Prop
  | empty (settings : QuerySettings) : ReachedWith Q (.empty settings)
  | edit {d : Draft} (e : Edit) (reached : ReachedWith Q d) (given : ∀ call ∈ e.call?, Q call)
      (right : ∀ joined ∈ e.right?, ReachedWith Q joined) : ReachedWith Q (d.edit e).draft
  | read {d : Draft} (text : String) (reached : ReachedWith Q d) : ReachedWith Q (d.read text).1

theorem ReachedWith.editAll {Q : Call → Prop} {d : Draft} (reached : d.ReachedWith Q)
    {edits : List Edit} (given : ∀ e ∈ edits, ∀ call ∈ e.call?, Q call)
    (rights : ∀ e ∈ edits, ∀ joined ∈ e.right?, joined.ReachedWith Q) :
    (d.editAll edits).ReachedWith Q := by
  induction edits generalizing d with
  | nil => exact reached
  | cons e rest ih =>
    obtain ⟨call, calls⟩ := List.forall_mem_cons.mp given
    obtain ⟨right, others⟩ := List.forall_mem_cons.mp rights
    exact ih (reached.edit e call right) calls others

theorem Reached.reachedWith {d : Draft} (reached : d.Reached) : d.ReachedWith fun _ => True := by
  induction reached with
  | empty settings => exact .empty settings
  | edit e _ _ ih rights => exact .edit e ih (fun _ _ => trivial) rights
  | read text _ ih => exact .read text ih

/-- An invariant holds of everything that calls and statements lead to. -/
theorem IsInvariant.reached {Q : Call → Prop} {R : Query → Prop} {P : Draft → Prop} {d : Draft}
    (invariant : IsInvariant Q R P) (reached : d.ReachedWith Q) : P d := by
  induction reached with
  | empty settings => exact invariant.empty settings
  | edit e _ given _ ih rights => exact invariant.edit ih given rights
  | read text _ ih => exact invariant.text ih text

/-- The selected fields of a draft have a property, and so have those of the queries that it is
joined to. -/
structure FieldsAre (F : List SelectedField → Prop) (d : Draft) : Prop where
  own : F d.fields
  joins : ∀ j ∈ d.joins, j.right.FieldsAre F
  pending : ∀ p ∈ d.pending, p.right.FieldsAre F

/-- What every change of the selected fields keeps holds of all queries that are built. -/
theorem ReachedWith.fieldsAre {Q : Call → Prop} {F : List SelectedField → Prop} {d : Draft}
    {q : Query} (calls : Call.IsKind Q) (atStart : F [])
    (change : ∀ {fields fields'}, SelectionChange Q fields fields' → F fields → F fields')
    (reached : d.ReachedWith Q) (built : d.build = .ok q) : q.FieldsAre F := by
  have build {d : Draft} {q : Query} (all : d.FieldsAre F) (built : d.build = .ok q) :
      q.FieldsAre F := by
    obtain ⟨_, _, _, _, rfl⟩ := exists_of_build built
    exact .intro all.own all.joins
  have invariant : IsInvariant Q (Query.FieldsAre F) (FieldsAre F) := {
    calls
    empty := fun _ => ⟨atStart, nofun, nofun⟩
    change := fun all changes => by
      obtain ⟨joins, pending⟩ := changes.joins.rights all.joins all.pending
      exact ⟨change changes.fields all.own, joins, pending⟩
    build }
  exact build (invariant.reached reached) built

end Draft

end RecordQuery
