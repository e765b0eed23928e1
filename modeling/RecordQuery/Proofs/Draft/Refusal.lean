import RecordQuery.Proofs.Draft.Reached
import RecordQuery.Proofs.Statement.Draft

namespace RecordQuery

/-- Whether something that a query is built of has been done to a draft by the time a call may be
refused: a list has had its first part accepted, in a draft that can be built, or a pending join has
been taken to be given its keys. -/
def Edit.MayStopHalfway (d : Draft) : Edit → Prop
  | .select text =>
    (∃ q, d.build = .ok q) ∧
      ∃ part ∈ (Draft.commaParts text).head?, part = "*" ∨ ∃ next, d.selectPath part = .ok next
  | .groupBy text =>
    (∃ q, d.build = .ok q) ∧
      ∃ part ∈ (Draft.commaParts text).head?, ∃ next, d.groupByPath part = .ok next
  | .on _ _ _ => d.pending.isSome = true
  | _ => False

theorem Outcome.draft_of_refused {d : Draft} {made : Except BuildFault Draft}
    (refused : (Outcome.ofExcept d made).fault.isSome = true) :
    (Outcome.ofExcept d made).draft = d := by
  cases made with
  | ok next => cases refused
  | error fault => rfl

/-- Only parentheses that are open keep conditions from being finished. -/
theorem ConditionDraft.tree_error {c : ConditionDraft} {fault : BuildFault}
    (failed : c.tree = .error fault) : fault = .groupsNotClosed c.outer.length := by
  rw [tree] at failed
  split at failed
  · cases failed
  · exact (Except.error.inj failed).symm

namespace Draft

/-- Nothing has happened to what a draft can be refused for when it is built. -/
structure KeepsGuards (d d' : Draft) : Prop where
  pending : d'.pending = d.pending
  filter : d'.filter = d.filter
  having : d'.having = d.having

section

variable {d d' d'' : Draft}

theorem KeepsGuards.refl (d : Draft) : d.KeepsGuards d :=
  ⟨rfl, rfl, rfl⟩

theorem KeepsGuards.trans (first : d.KeepsGuards d') (second : d'.KeepsGuards d'') :
    d.KeepsGuards d'' :=
  ⟨second.pending.trans first.pending, second.filter.trans first.filter,
    second.having.trans first.having⟩

theorem keepsGuards_selectPath {text : String} (selected : d.selectPath text = .ok d') :
    d.KeepsGuards d' := by
  unfold selectPath at selected
  obtain ⟨path, -, added⟩ := exists_path selected
  obtain ⟨-, rfl⟩ := addField_ok added
  exact ⟨rfl, rfl, rfl⟩

theorem keepsGuards_selectParts (parts : List String) (d : Draft) :
    d.KeepsGuards (d.selectParts parts).draft :=
  of_selectParts (P := d.KeepsGuards) (.refl d) parts (fun keeps => keeps.trans ⟨rfl, rfl, rfl⟩)
    fun keeps selected => keeps.trans (keepsGuards_selectPath selected)

theorem keepsGuards_groupByPath {text : String} (grouped : d.groupByPath text = .ok d') :
    d.KeepsGuards d' := by
  unfold groupByPath at grouped
  obtain ⟨path, -, grouped⟩ := exists_path grouped
  cases grouped
  exact ⟨rfl, rfl, rfl⟩

theorem keepsGuards_groupByParts (parts : List String) (d : Draft) :
    d.KeepsGuards (d.groupByParts parts).draft :=
  of_groupByParts (P := d.KeepsGuards) (.refl d) parts
    fun keeps grouped => keeps.trans (keepsGuards_groupByPath grouped)

/-- What keeps a draft from being built keeps others with the same conditions from it as well. -/
theorem KeepsGuards.build_error (keeps : d.KeepsGuards d') {fault : BuildFault}
    (failed : d.build = .error fault) : d'.build = .error fault := by
  unfold build at failed ⊢
  rw [keeps.pending, keeps.filter, keeps.having]
  cases waiting : d.pending with
  | some pending =>
    rw [waiting] at failed
    exact failed
  | none =>
    rw [waiting] at failed
    rcases of_bind_error failed with filter | ⟨conditions, filter, behind⟩
    · rw [filter]
      rfl
    rcases of_bind_error behind with having | ⟨groupConditions, -, last⟩
    · rw [filter, having]
      rfl
    · cases last

end

variable {d : Draft}

/-- A list whose first part is not accepted changes nothing, and a draft that cannot be built stays
so for the same reason. -/
theorem build_select {text : String} (whole : ¬ (Edit.select text).MayStopHalfway d) :
    (d.select text).draft.build = d.build := by
  cases built : d.build with
  | error fault => exact (keepsGuards_selectParts _ d).build_error built
  | ok q =>
    unfold select
    cases parts : commaParts text with
    | nil => exact built
    | cons part rest =>
      rw [Edit.MayStopHalfway, parts] at whole
      have other : part ≠ "*" := fun star => whole ⟨⟨q, built⟩, part, rfl, .inl star⟩
      rw [selectParts, if_neg other]
      cases taken : d.selectPath part with
      | ok next => exact absurd ⟨⟨q, built⟩, part, rfl, .inr ⟨next, taken⟩⟩ whole
      | error fault => exact built

theorem build_addGroupBy {text : String} (whole : ¬ (Edit.groupBy text).MayStopHalfway d) :
    (d.addGroupBy text).draft.build = d.build := by
  cases built : d.build with
  | error fault => exact (keepsGuards_groupByParts _ d).build_error built
  | ok q =>
    unfold addGroupBy
    cases parts : commaParts text with
    | nil => exact built
    | cons part rest =>
      rw [Edit.MayStopHalfway, parts] at whole
      rw [groupByParts]
      cases taken : d.groupByPath part with
      | ok next => exact absurd ⟨⟨q, built⟩, part, rfl, next, taken⟩ whole
      | error fault => exact built

/-- Whatever clause is being written, the same query is built. -/
theorem build_setClause (c : ConditionClause) : (d.setClause c).build = d.build :=
  rfl

/-- A refused call changes nothing in the query that is built, or in why none is, unless it stops
halfway. -/
theorem build_of_refused (d : Draft) (e : Edit) (refused : (d.edit e).fault.isSome = true)
    (whole : ¬ e.MayStopHalfway d) : (d.edit e).draft.build = d.build := by
  cases e with
  | setGrouping | selectAll | distinct | source | openGroup | limit | offset => cases refused
  | selectCall | selectFunction | selectCount | setAlias | condition | closeGroup | join | orderBy
  | setDirection | page => exact congrArg build (Outcome.draft_of_refused refused)
  | beginClause c =>
    exact (congrArg build (Outcome.draft_of_refused refused)).trans (build_setClause c)
  | select text => exact build_select whole
  | groupBy text => exact build_addGroupBy whole
  | on left operator right =>
    cases waiting : d.pending with
    | some pending => exact absurd (by rw [Edit.MayStopHalfway, waiting]; rfl) whole
    | none =>
      have unchanged : (d.on left operator right).draft = d := by rw [on, waiting]
      exact congrArg build unchanged

/-- A list that begins with a wrong path. -/
theorem build_of_refused_select :
    let d := ((empty .default).edit (.select "a")).draft
    ((d.edit (.select "b..c, b")).fault.isSome = true ∧
      ¬ (Edit.select "b..c, b").MayStopHalfway d) ∧
    (d.edit (.select "b..c, b")).draft.build = d.build := by
  intro d
  have refused : (d.edit (.select "b..c, b")).fault.isSome = true := by decide +kernel
  have first : (commaParts "b..c, b").head? = some "b..c" := by decide +kernel
  have wrong : (d.selectPath "b..c").toOption.isNone = true := by decide +kernel
  have whole : ¬ (Edit.select "b..c, b").MayStopHalfway d := by
    rintro ⟨-, part, found, accepted⟩
    rw [first] at found
    obtain rfl := Option.some.inj found
    rcases accepted with star | ⟨next, taken⟩
    · exact absurd star (by decide)
    · rw [taken] at wrong
      cases wrong
  exact ⟨⟨refused, whole⟩, build_of_refused d _ refused whole⟩

/-- A join whose keys are refused is forgotten, so nothing is refused for it any more. -/
theorem build_on_of_refused (left : String) (operator : Operator) (right : String)
    (waiting : d.pending.isSome = true) (refused : (d.on left operator right).fault.isSome = true) :
    (d.on left operator right).draft.build = { d with pending := none }.build ∧
      (d.on left operator right).draft.build ≠ d.build := by
  obtain ⟨pending, waiting⟩ := Option.isSome_iff_exists.mp waiting
  have forgotten : (d.on left operator right).draft = { d with pending := none } := by
    rw [on, waiting] at refused ⊢
    exact Outcome.draft_of_refused refused
  have before : d.build = .error (.joinWithoutKeys pending.kind.name) := by rw [build, waiting]
  rw [forgotten, before]
  refine ⟨rfl, fun same => ?_⟩
  rw [build] at same
  rcases of_bind_error same with filter | ⟨conditions, -, behind⟩
  · cases ConditionDraft.tree_error filter
  rcases of_bind_error behind with having | ⟨groupConditions, -, last⟩
  · cases ConditionDraft.tree_error having
  · cases last

theorem reached_join {right : Draft} (reached : d.Reached) (other : right.Reached)
    (kind : JoinKind) (aliasName : Option String) :
    (d.edit (.join kind right aliasName)).draft.Reached :=
  reached.edit _ fun _ member => Option.some.inj member ▸ other

/-- The keys of a left join that waits for them are refused. -/
theorem not_build_of_refused : ¬ ∀ (d : Draft) (e : Edit), d.Reached →
    (d.edit e).fault.isSome = true → (d.edit e).draft.build = d.build := by
  intro same
  have right := Reached.edit (.source "t") (.empty .default) (by simp [Edit.right?])
  have reached := reached_join (.empty .default) right .left (some "o")
  refine (build_on_of_refused "a..b" .equal "c" ?_ ?_).2 (same _ (.on "a..b" .equal "c") reached ?_)
  · decide +kernel
  · decide +kernel
  · decide +kernel

end Draft

end RecordQuery
