import RecordQuery.Proofs.Statement.Move

namespace RecordQuery

namespace Draft

/-- The conditions of a clause. -/
def conditionsOf (d : Draft) : ConditionClause → ConditionDraft
  | .filter => d.filter
  | .having => d.having

theorem conditions_eq (d : Draft) : d.conditions = d.conditionsOf d.clause := by
  unfold conditions
  cases d.clause <;> rfl

theorem conditionsOf_mapConditions (d : Draft) (f : ConditionDraft → ConditionDraft) :
    (d.mapConditions f).conditionsOf d.clause = f (d.conditionsOf d.clause) := by
  unfold mapConditions
  cases d.clause <;> rfl

/-- A draft that is built becomes a query of what it holds, with trees for its conditions. -/
theorem exists_of_build {d : Draft} {q : Query} (built : d.build = .ok q) :
    ∃ filter having, d.filter.tree = .ok filter ∧ d.having.tree = .ok having ∧
      q = {
        selectAll := d.selectAll
        fields := d.fields
        distinct := d.distinct
        locator := d.locator
        joins := d.joins
        filter
        having
        groupBy := d.groupBy
        orderBy := d.orderBy
        limit := d.limit
        offset := d.offset
        settings := d.settings } := by
  unfold build at built
  split at built
  · cases built
  obtain ⟨filter, first, built⟩ := exists_of_bind_ok built
  obtain ⟨having, second, built⟩ := exists_of_bind_ok built
  exact ⟨filter, having, first, second, (Except.ok.inj built).symm⟩

theorem checkAlias_of_settled {d : Draft} (settled : d.pending = none) (text : String) :
    d.checkAlias text = .ok () := by
  rw [checkAlias, settled]
  rfl

theorem addTest_of_settled {d : Draft} (settled : d.pending = none) (connective : Connective)
    (p : Predicate) :
    d.addTest connective p = .ok (d.mapConditions fun c => c.add connective (.test p)) := by
  rw [addTest, checkAlias_of_settled settled]
  rfl

/-- The draft with one more key that the rows are ordered by. -/
def withOrderKey (d : Draft) (key : OrderKey) : Draft :=
  { d with orderBy := d.orderBy ++ [key] }

theorem foldl_withOrderKey (d : Draft) (keys : List OrderKey) :
    keys.foldl withOrderKey d = { d with orderBy := d.orderBy ++ keys } := by
  induction keys generalizing d with
  | nil => simp
  | cons key rest ih => rw [List.foldl_cons, ih, withOrderKey]; simp

/-- A text that is read as a path adds that path with its direction. -/
theorem addOrderBy_of_read {d : Draft} (settled : d.pending = none) (key : OrderKey)
    (read : FieldPath.forQuery key.field.text = .ok key.field) :
    d.addOrderBy key.field.text key.direction = .ok (d.withOrderKey key) := by
  rw [addOrderBy, checkAlias_of_settled settled, read]
  rfl

/-- Nothing has happened to the conditions, the joins and the settings. -/
structure Keeps (d d' : Draft) : Prop where
  conditions : ∀ c, d'.conditionsOf c = d.conditionsOf c
  joins : d'.joins = d.joins
  settings : d'.settings = d.settings

/-- Nothing has happened but to the conditions of the clause that is being written. -/
structure Writes (d d' : Draft) : Prop where
  others : ∀ c, c ≠ d.clause → d'.conditionsOf c = d.conditionsOf c
  clause : d'.clause = d.clause
  joins : d'.joins = d.joins
  settings : d'.settings = d.settings

/-- A query has been joined. -/
structure JoinedTo (d : Draft) (q : Query) (d' : Draft) : Prop where
  conditions : ∀ c, d'.conditionsOf c = d.conditionsOf c
  joins : ∃ terms, d'.joins = d.joins ++ [⟨q, terms⟩]
  settings : d'.settings = d.settings

section

variable {d d' d'' : Draft}

theorem JoinedTo.exists_mem {q : Query} (joined : d.JoinedTo q d') :
    ∃ terms, (⟨q, terms⟩ : Join) ∈ d'.joins := by
  obtain ⟨terms, all⟩ := joined.joins
  refine ⟨terms, ?_⟩
  rw [all]
  exact List.mem_append_right _ (List.mem_singleton_self _)

theorem JoinedTo.subset {q : Query} (joined : d.JoinedTo q d') : d.joins ⊆ d'.joins := by
  obtain ⟨terms, all⟩ := joined.joins
  rw [all]
  exact List.subset_append_left _ _

theorem Keeps.refl (d : Draft) : d.Keeps d :=
  ⟨fun _ => rfl, rfl, rfl⟩

theorem Keeps.subset (keeps : d.Keeps d') : d.joins ⊆ d'.joins :=
  keeps.joins ▸ List.Subset.refl _

theorem Keeps.trans (first : d.Keeps d') (second : d'.Keeps d'') : d.Keeps d'' :=
  ⟨fun c => (second.conditions c).trans (first.conditions c), second.joins.trans first.joins,
    second.settings.trans first.settings⟩

theorem Writes.refl (d : Draft) : d.Writes d :=
  ⟨fun _ _ => rfl, rfl, rfl, rfl⟩

theorem Writes.subset (writes : d.Writes d') : d.joins ⊆ d'.joins :=
  writes.joins ▸ List.Subset.refl _

theorem Writes.trans (first : d.Writes d') (second : d'.Writes d'') : d.Writes d'' := by
  refine ⟨fun c other => ?_, second.clause.trans first.clause, second.joins.trans first.joins,
    second.settings.trans first.settings⟩
  rw [second.others c (by rwa [first.clause]), first.others c other]

theorem writes_mapConditions (d : Draft) (f : ConditionDraft → ConditionDraft) :
    d.Writes (d.mapConditions f) := by
  unfold mapConditions
  cases clause : d.clause with
  | filter =>
    refine ⟨fun c other => ?_, clause.symm, rfl, rfl⟩
    cases c with
    | filter => exact absurd clause.symm other
    | having => rfl
  | having =>
    refine ⟨fun c other => ?_, clause.symm, rfl, rfl⟩
    cases c with
    | filter => rfl
    | having => exact absurd clause.symm other

/-- What a text is read for is done to the path that it is. -/
theorem exists_path {text : String} {f : FieldPath → Except BuildFault Draft}
    (done : (do d.checkAlias text; let path ← FieldPath.forQuery text; f path) = .ok d') :
    ∃ path, FieldPath.forQuery text = .ok path ∧ f path = .ok d' := by
  obtain ⟨_, -, done⟩ := exists_of_bind_ok done
  exact exists_of_bind_ok done

/-- A field is only added if its key is new. -/
theorem addField_ok {f : SelectedField} (added : d.addField f = .ok d') :
    (∀ g ∈ d.fields, g.name ≠ f.name) ∧
      d' = { d with fields := d.fields ++ [f], aliasable := true } := by
  unfold addField at added
  split at added
  · cases added
  · rename_i unused
    refine ⟨fun g member same => unused ?_, (Except.ok.inj added).symm⟩
    exact List.any_eq_true.mpr ⟨g, member, beq_iff_eq.mpr same⟩

/-- The last field is only renamed to a key that no other field has. -/
theorem setAlias_ok {name : String} (named : d.setAlias name = .ok d') :
    ∃ front last, d.fields = front ++ [last] ∧
      (last.name = Text.trim name ∨ ∀ g ∈ front, g.name ≠ Text.trim name) ∧
      d' = { d with fields := front ++ [last.withAlias (Text.trim name)], aliasable := false } := by
  unfold setAlias at named
  dsimp only at named
  split at named
  · cases named
  split at named
  · cases named
  rename_i last found
  obtain ⟨front, all⟩ := List.getLast?_eq_some_iff.mp found
  split at named
  · split at named
    · cases named
    · rename_i free
      rw [all, List.dropLast_concat] at named
      refine ⟨front, last, all, ?_, (Except.ok.inj named).symm⟩
      by_cases own : last.name = Text.trim name
      · exact .inl own
      · refine .inr fun g member same => free ⟨own, List.any_eq_true.mpr ⟨g, ?_, ?_⟩⟩
        · rw [all]
          exact List.mem_append_left _ member
        · exact beq_iff_eq.mpr same
  · split at named <;> cases named

section

variable {P : Draft → Prop} (holds : P d) (parts : List String)
include holds

/-- What is kept by each part of a text that selects is kept by all of them. -/
theorem of_selectParts (all : ∀ {d}, P d → P d.all)
    (path : ∀ {d d' text}, P d → d.selectPath text = .ok d' → P d') :
    P (d.selectParts parts).draft := by
  induction parts generalizing d with
  | nil => exact holds
  | cons part rest ih =>
    rw [selectParts]
    split
    · exact ih (all holds)
    split
    · rename_i selected
      exact ih (path holds selected)
    · exact holds

theorem of_groupByParts (path : ∀ {d d' text}, P d → d.groupByPath text = .ok d' → P d') :
    P (d.groupByParts parts).draft := by
  induction parts generalizing d with
  | nil => exact holds
  | cons part rest ih =>
    rw [groupByParts]
    split
    · rename_i grouped
      exact ih (path holds grouped)
    · exact holds

end

theorem keeps_addField {f : SelectedField} (added : d.addField f = .ok d') : d.Keeps d' := by
  obtain ⟨-, rfl⟩ := addField_ok added
  exact ⟨fun c => by cases c <;> rfl, rfl, rfl⟩

theorem keeps_selectPath {text : String} (selected : d.selectPath text = .ok d') : d.Keeps d' := by
  unfold selectPath at selected
  obtain ⟨path, -, selected⟩ := exists_path selected
  exact keeps_addField selected

theorem keeps_selectParts (parts : List String) (d : Draft) :
    d.Keeps (d.selectParts parts).draft :=
  of_selectParts (P := d.Keeps) (.refl d) parts
    (fun keeps => keeps.trans ⟨fun c => by cases c <;> rfl, rfl, rfl⟩)
    fun keeps selected => keeps.trans (keeps_selectPath selected)

theorem keeps_setAlias {name : String} (named : d.setAlias name = .ok d') : d.Keeps d' := by
  obtain ⟨_, _, -, -, rfl⟩ := setAlias_ok named
  exact ⟨fun c => by cases c <;> rfl, rfl, rfl⟩

theorem keeps_groupByPath {text : String} (grouped : d.groupByPath text = .ok d') :
    d.Keeps d' := by
  unfold groupByPath at grouped
  obtain ⟨path, -, grouped⟩ := exists_path grouped
  cases grouped
  exact ⟨fun c => by cases c <;> rfl, rfl, rfl⟩

theorem keeps_groupByParts (parts : List String) (d : Draft) :
    d.Keeps (d.groupByParts parts).draft :=
  of_groupByParts (P := d.Keeps) (.refl d) parts
    fun keeps grouped => keeps.trans (keeps_groupByPath grouped)

theorem keeps_addOrderBy {text : String} {direction : Direction}
    (ordered : d.addOrderBy text direction = .ok d') : d.Keeps d' := by
  unfold addOrderBy at ordered
  obtain ⟨path, -, ordered⟩ := exists_path ordered
  cases ordered
  exact ⟨fun c => by cases c <;> rfl, rfl, rfl⟩

/-- Parentheses are closed in the conditions of the clause that is being written. -/
theorem closeGroup_ok (closed : d.closeGroup = .ok d') :
    ∃ c, d.conditions.closeGroup = .ok c ∧ d' = d.mapConditions fun _ => c := by
  obtain ⟨c, inner, closed⟩ := exists_of_bind_ok closed
  exact ⟨c, inner, (Except.ok.inj closed).symm⟩

theorem writes_closeGroup (closed : d.closeGroup = .ok d') : d.Writes d' := by
  obtain ⟨c, -, rfl⟩ := closeGroup_ok closed
  exact d.writes_mapConditions _

theorem writes_addTest {connective : Connective} {p : Predicate}
    (added : d.addTest connective p = .ok d') : d.Writes d' := by
  rw [addTest_ok added]
  exact d.writes_mapConditions _

theorem join_ok {kind : JoinKind} {right : Draft} {aliasName : Option String}
    (joined : d.join kind right aliasName = .ok d') :
    ∃ q pending, right.build = .ok q ∧ pending.right = q ∧
      d' = { d with pending := some pending } := by
  unfold join at joined
  split at joined
  · cases joined
  dsimp only at joined
  split at joined
  · cases joined
  obtain ⟨q, built, joined⟩ := exists_of_bind_ok joined
  cases joined
  exact ⟨q, _, built, rfl, rfl⟩

/-- A pending join that is given keys has become one of the joins. -/
theorem on_ok {left right : String} {operator : Operator}
    (accepted : (d.on left operator right).fault = none) :
    ∃ pending leftKey rightKey, d.pending = some pending ∧
      FieldPath.forQuery left = .ok leftKey ∧ FieldPath.forQuery right = .ok rightKey ∧
      (d.on left operator right).draft =
        { d with
          pending := none
          joins := d.joins ++
            [⟨pending.right, pending.kind, pending.aliasName, leftKey, operator, rightKey⟩] } := by
  unfold on at accepted ⊢
  cases waiting : d.pending with
  | none =>
    rw [waiting] at accepted
    cases accepted
  | some pending =>
    simp only [waiting] at accepted ⊢
    obtain ⟨next, done, draft⟩ := Outcome.exists_of_ofExcept accepted
    rw [draft]
    obtain ⟨leftKey, leftRead, done⟩ := exists_of_bind_ok done
    obtain ⟨rightKey, rightRead, done⟩ := exists_of_bind_ok done
    exact ⟨pending, leftKey, rightKey, rfl, leftRead, rightRead, (Except.ok.inj done).symm⟩

theorem joinedTo_on {left right : String} {operator : Operator} {pending : PendingJoin}
    (waiting : d.pending = some pending) (accepted : (d.on left operator right).fault = none) :
    d.JoinedTo pending.right (d.on left operator right).draft := by
  obtain ⟨_, leftKey, rightKey, same, -, -, draft⟩ := on_ok accepted
  cases Option.some.inj (waiting.symm.trans same)
  rw [draft]
  exact ⟨fun c => by cases c <;> rfl, ⟨_, rfl⟩, rfl⟩

end

end Draft

namespace NestedDraft

section

variable {n m : NestedDraft}

theorem runInner_draft {f : Draft → Outcome} (takes : n.runInner f = (m, none)) :
    m = { n with inner := (f n.inner).draft } := by
  simp only [runInner, Prod.mk.injEq] at takes
  exact takes.1.symm

/-- A plain step is taken in the innermost query and changes none of its conditions. -/
theorem keeps_take {s : Step} (plain : s.isPlain) (takes : n.take s = (m, none)) :
    n.inner.Keeps m.inner ∧ m.around = n.around := by
  cases s with
  | select text =>
    cases runInner_draft (f := fun d => d.select text) takes
    exact ⟨Draft.keeps_selectParts .., rfl⟩
  | groupBy text =>
    cases runInner_draft (f := fun d => d.addGroupBy text) takes
    exact ⟨Draft.keeps_groupByParts .., rfl⟩
  | selectCall call =>
    obtain ⟨d, added, rfl⟩ := tryInner_ok (f := fun d => d.selectCall call) takes
    exact ⟨Draft.keeps_addField added, rfl⟩
  | setAlias name =>
    obtain ⟨d, named, rfl⟩ := tryInner_ok (f := fun d => d.setAlias name) takes
    exact ⟨Draft.keeps_setAlias named, rfl⟩
  | orderBy text direction =>
    obtain ⟨d, ordered, rfl⟩ := tryInner_ok (f := fun d => d.addOrderBy text direction) takes
    exact ⟨Draft.keeps_addOrderBy ordered, rfl⟩
  | distinct | selectAll | source | limit | offset =>
    cases takes
    exact ⟨⟨fun c => by cases c <;> rfl, rfl, rfl⟩, rfl⟩
  | _ => cases plain

/-- What every step does to the innermost query, all steps together do to it. -/
theorem takeAll_inner {R : Draft → Draft → Prop} (refl : ∀ d, R d d)
    (trans : ∀ {d d' d''}, R d d' → R d' d'' → R d d'') {steps : List PlacedStep}
    (each : ∀ s ∈ steps, ∀ {n m : NestedDraft}, n.take s.step = (m, none) →
      R n.inner m.inner ∧ m.around = n.around)
    (takes : n.takeAll steps = (m, none)) : R n.inner m.inner ∧ m.around = n.around := by
  refine of_takeAll_ok (P := fun k => R n.inner k.inner ∧ k.around = n.around)
    (fun s member k l before taken => ?_) ⟨refl _, rfl⟩ takes
  obtain ⟨related, around⟩ := before
  obtain ⟨next, same⟩ := each s member taken
  exact ⟨trans related next, same.trans around⟩

theorem keeps_takeAll {steps : List PlacedStep} (plain : ∀ s ∈ steps, s.step.isPlain)
    (takes : n.takeAll steps = (m, none)) : n.inner.Keeps m.inner ∧ m.around = n.around :=
  takeAll_inner Draft.Keeps.refl Draft.Keeps.trans
    (fun s member => keeps_take (plain s member)) takes

/-- A clause of conditions begins in the innermost query behind plain steps. -/
theorem opens_takeAll {steps : List PlacedStep} {position : Nat} {c : ConditionClause}
    (plain : ∀ s ∈ steps, s.step.isPlain)
    (takes : n.takeAll (steps ++ [⟨position, .clause c⟩]) = (m, none)) :
    n.inner.Keeps m.inner ∧ m.inner.clause = c ∧ m.around = n.around := by
  rw [takeAll_append] at takes
  split at takes
  · rename_i middle taken
    obtain ⟨keeps, around⟩ := keeps_takeAll plain taken
    cases takeAll_singleton takes
    exact ⟨keeps.trans ⟨fun d => by cases d <;> rfl, rfl, rfl⟩, rfl, around⟩
  · cases takes

/-- A step of a condition is taken in the innermost query. -/
theorem writes_take {s : Step} (condition : s.isCondition) (takes : n.take s = (m, none)) :
    n.inner.Writes m.inner ∧ m.around = n.around := by
  cases s with
  | openGroup connective =>
    cases takes
    exact ⟨n.inner.writes_mapConditions fun c => c.openGroup connective, rfl⟩
  | closeGroup =>
    obtain ⟨d, closed, rfl⟩ := tryInner_ok (f := Draft.closeGroup) takes
    exact ⟨Draft.writes_closeGroup closed, rfl⟩
  | test connective p =>
    obtain ⟨d, added, rfl⟩ := tryInner_ok (f := fun d => d.addTest connective p) takes
    exact ⟨Draft.writes_addTest added, rfl⟩
  | _ => cases condition

theorem writes_takeAll {steps : List PlacedStep} (condition : ∀ s ∈ steps, s.step.isCondition)
    (takes : n.takeAll steps = (m, none)) : n.inner.Writes m.inner ∧ m.around = n.around :=
  takeAll_inner Draft.Writes.refl Draft.Writes.trans
    (fun s member => writes_take (condition s member)) takes

/-- The innermost query is finished and joined to the one around it. -/
theorem joinedTo_take {kind : JoinKind} {aliasName : Option String} {left right : String}
    {operator : Operator} {d : Draft} {around : List Draft} (nested : n.around = d :: around)
    (takes : n.take (.join kind aliasName left operator right) = (m, none)) :
    ∃ q, n.inner.build = .ok q ∧ d.JoinedTo q m.inner ∧ m.around = around := by
  unfold take at takes
  simp only [nested, Prod.mk.injEq] at takes
  obtain ⟨same, accepted⟩ := takes
  cases joined : d.join kind n.inner aliasName with
  | error fault =>
    rw [joined] at accepted
    cases accepted
  | ok middle =>
    obtain ⟨q, pending, built, rfl, rfl⟩ := Draft.join_ok joined
    rw [joined] at same accepted
    simp only [Outcome.ofExcept, Outcome.andThen] at same accepted
    subst same
    have done := Draft.joinedTo_on rfl accepted
    exact ⟨_, built, ⟨done.conditions, done.joins, done.settings⟩, rfl⟩

end

end NestedDraft

end RecordQuery
