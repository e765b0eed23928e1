import RecordQuery.Proofs.Canonical.Argument
import RecordQuery.Proofs.Draft.Refusal
import RecordQuery.Proofs.FieldPath.FirstName

namespace RecordQuery

/-- The texts of the fields that a call names outside of functions. A star alone is no field where
fields are selected. -/
def Edit.fieldTexts : Edit → List String
  | .select text => (Draft.commaParts text).filter (· ≠ "*")
  | .beginClause _ field _ _ => [field]
  | .condition _ field _ _ => [field]
  | .groupBy text => Draft.commaParts text
  | .orderBy text _ => [text]
  | _ => []

/-- Whether a call registers a join or gives it its keys. -/
def Edit.isJoining : Edit → Bool
  | .join .. | .on .. => true
  | _ => false

namespace Draft

open FieldPath (Behind)

/-- The alias of the join that has no keys yet, if it has one. -/
def pendingAlias? (d : Draft) : Option String :=
  d.pending.bind PendingJoin.aliasName

def withoutPending (d : Draft) : Draft :=
  { d with pending := none }

section

variable {aliasName text : String} {path : FieldPath}

/-- A path whose first name is the alias is found to refer to it unless this name stands between
backticks. -/
theorem refersTo_iff (read : FieldPath.ofText? text = some path)
    (first : path.segments.head? = some (.key aliasName)) :
    refersTo aliasName.toList text.toList = true ↔ path.isTicked = false := by
  obtain ⟨segments, parsed, rfl⟩ := Option.map_eq_some_iff.mp read
  obtain ⟨rest, rfl⟩ := List.head?_eq_some_iff.mp first
  obtain ⟨front, behind, isName, whole, behindName⟩ :=
    (FieldPath.denotes_of_readSegments parsed).exists_name
  unfold refersTo FieldPath.isTicked
  dsimp only
  rw [whole]
  obtain ⟨quoted, rfl⟩ | ⟨-, rfl, bare⟩ := isName.cases_text
  · refine iff_of_false ?_ (by simp)
    cases chars : aliasName.toList with
    | nil => simp
    | cons c inside =>
      have other : c ≠ '\x60' := by
        rintro rfl
        cases quoted '\x60' (chars ▸ List.mem_cons_self ..)
      simp [other]
  · refine iff_of_true ?_ (beq_false_of_ne (bare behind))
    rw [List.isPrefixOf_iff_prefix.mpr (List.prefix_append ..), List.drop_left]
    cases behindName <;> rfl

variable {d d' : Draft}

theorem checkAlias_refersTo (waiting : d.pendingAlias? = some aliasName)
    (refers : refersTo aliasName.toList text.toList = true) :
    d.checkAlias text = .error (.pendingAlias aliasName) := by
  unfold checkAlias
  rw [show d.pending.bind PendingJoin.aliasName = some aliasName from waiting]
  exact if_pos refers

theorem checkAlias_apart (waiting : d.pendingAlias? = some aliasName)
    (apart : refersTo aliasName.toList text.toList = false) : d.checkAlias text = .ok () := by
  unfold checkAlias
  rw [show d.pending.bind PendingJoin.aliasName = some aliasName from waiting]
  exact if_neg (Bool.not_eq_true _ ▸ apart)

theorem KeepsGuards.pendingAlias? (keeps : d.KeepsGuards d')
    (waiting : d.pendingAlias? = some aliasName) : d'.pendingAlias? = some aliasName := by
  rw [Draft.pendingAlias?, keeps.pending]
  exact waiting

section

variable (waiting : d.pendingAlias? = some aliasName)
  (refers : refersTo aliasName.toList text.toList = true)

include waiting refers

theorem selectPath_refersTo : d.selectPath text = .error (.pendingAlias aliasName) := by
  rw [selectPath, checkAlias_refersTo waiting refers]
  rfl

theorem groupByPath_refersTo : d.groupByPath text = .error (.pendingAlias aliasName) := by
  rw [groupByPath, checkAlias_refersTo waiting refers]
  rfl

theorem addOrderBy_refersTo (direction : Direction) :
    d.addOrderBy text direction = .error (.pendingAlias aliasName) := by
  rw [addOrderBy, checkAlias_refersTo waiting refers]
  rfl

theorem condition_refersTo (read : FieldPath.ofText? text = some path) (connective : Connective)
    (operator : Operator) (operand : Value) :
    d.condition connective text operator operand = .error (.pendingAlias aliasName) := by
  have same : path.text = text := by
    obtain ⟨segments, -, rfl⟩ := Option.map_eq_some_iff.mp read
    rfl
  rw [condition, FieldPath.forQuery, read]
  change d.addTest connective ⟨path, operator, operand⟩ = _
  rw [addTest, show d.checkAlias path.text = _ from checkAlias_refersTo waiting (same ▸ refers)]
  rfl

/-- A list is refused at this part if it has not been refused before. -/
theorem fault_selectParts {parts : List String} (member : text ∈ parts) (other : text ≠ "*") :
    (d.selectParts parts).fault.isSome = true := by
  induction parts generalizing d with
  | nil => cases member
  | cons part rest ih =>
    rw [selectParts]
    split
    · rename_i star
      have all : d.KeepsGuards d.all := ⟨rfl, rfl, rfl⟩
      exact ih (all.pendingAlias? waiting)
        ((List.mem_cons.mp member).resolve_left fun same => other (same.trans star))
    split
    · rename_i next selected
      have later : text ∈ rest := (List.mem_cons.mp member).resolve_left fun same => by
        rw [← same, selectPath_refersTo waiting refers] at selected
        cases selected
      exact ih ((keepsGuards_selectPath selected).pendingAlias? waiting) later
    · rfl

theorem fault_groupByParts {parts : List String} (member : text ∈ parts) :
    (d.groupByParts parts).fault.isSome = true := by
  induction parts generalizing d with
  | nil => cases member
  | cons part rest ih =>
    rw [groupByParts]
    split
    · rename_i next grouped
      have later : text ∈ rest := (List.mem_cons.mp member).resolve_left fun same => by
        rw [← same, groupByPath_refersTo waiting refers] at grouped
        cases grouped
      exact ih ((keepsGuards_groupByPath grouped).pendingAlias? waiting) later
    · rfl

theorem fault_edit_of_refersTo (read : FieldPath.ofText? text = some path) {e : Edit}
    (member : text ∈ e.fieldTexts) : (d.edit e).fault.isSome = true := by
  cases e with
  | select list =>
    obtain ⟨part, other⟩ := List.mem_filter.mp member
    exact fault_selectParts waiting refers part (of_decide_eq_true other)
  | groupBy list => exact fault_groupByParts waiting refers member
  | beginClause c field operator operand =>
    obtain rfl := List.mem_singleton.mp member
    have refused := condition_refersTo (d := d.setClause c) waiting refers read
    rw [edit, beginClause, refused]
    rfl
  | condition connective field operator operand =>
    obtain rfl := List.mem_singleton.mp member
    rw [edit, condition_refersTo waiting refers read]
    rfl
  | orderBy field direction =>
    obtain rfl := List.mem_singleton.mp member
    rw [edit, addOrderBy_refersTo waiting refers]
    rfl
  | _ => cases member

end

/-- A draft in which no join waits for its keys looks for no alias. -/
theorem checkAlias_withoutPending (d : Draft) (text : String) :
    d.withoutPending.checkAlias text = .ok () :=
  rfl

theorem addField_withoutPending (d : Draft) (f : SelectedField) :
    d.withoutPending.addField f = (d.addField f).map withoutPending := by
  unfold addField
  rw [apply_ite (Except.map withoutPending)]
  rfl

theorem mapConditions_withoutPending (d : Draft) (f : ConditionDraft → ConditionDraft) :
    d.withoutPending.mapConditions f = (d.mapConditions f).withoutPending := by
  unfold mapConditions
  dsimp only [withoutPending]
  split <;> rfl

theorem setAlias_withoutPending (d : Draft) (name : String) :
    d.withoutPending.setAlias name = (d.setAlias name).map withoutPending := by
  unfold setAlias
  dsimp only
  rw [apply_ite (Except.map withoutPending)]
  congr 1
  rw [show d.withoutPending.fields = d.fields from rfl]
  cases d.fields.getLast? with
  | none => rfl
  | some last =>
    dsimp only
    rw [apply_ite (Except.map withoutPending), apply_ite (Except.map withoutPending),
      apply_ite (Except.map withoutPending)]
    rfl

theorem setDirection_withoutPending (d : Draft) (direction : Direction) :
    d.withoutPending.setDirection direction =
      (d.setDirection direction).map withoutPending := by
  unfold setDirection
  rw [show d.withoutPending.orderBy = d.orderBy from rfl]
  cases d.orderBy.getLast? <;> rfl

theorem page_withoutPending (d : Draft) (number size : Nat) :
    d.withoutPending.page number size = (d.page number size).map withoutPending := by
  unfold page
  rw [apply_ite (Except.map withoutPending)]
  rfl

theorem closeGroup_withoutPending (d : Draft) :
    d.withoutPending.closeGroup = d.closeGroup.map withoutPending := by
  unfold closeGroup
  change (d.conditions.closeGroup >>= _) = _
  cases d.conditions.closeGroup with
  | error fault => rfl
  | ok closed => exact congrArg Except.ok (d.mapConditions_withoutPending _)

theorem selectFunction_withoutPending (d : Draft) (kind : FunctionKind) (fields : List String)
    (literals : List Value) : d.withoutPending.selectFunction kind fields literals =
      (d.selectFunction kind fields literals).map withoutPending := by
  unfold selectFunction
  cases fields.mapM FieldPath.forQuery with
  | error fault => rfl
  | ok paths =>
    cases made : Call.make kind (paths.map Argument.field ++ literals.map Argument.literal) with
    | error fault =>
      simp only [bind, Except.bind, made]
      rfl
    | ok call =>
      simp only [bind, Except.bind, made]
      exact d.addField_withoutPending _

theorem selectCount_withoutPending (d : Draft) (field : String) :
    d.withoutPending.selectCount field = (d.selectCount field).map withoutPending := by
  unfold selectCount
  split
  · exact d.addField_withoutPending _
  · exact d.selectFunction_withoutPending ..

section

variable (passes : d.checkAlias text = .ok ())

include passes

theorem selectPath_withoutPending :
    d.withoutPending.selectPath text = (d.selectPath text).map withoutPending := by
  unfold selectPath
  rw [passes, checkAlias_withoutPending]
  cases FieldPath.forQuery text with
  | error fault => rfl
  | ok path => exact d.addField_withoutPending _

theorem groupByPath_withoutPending :
    d.withoutPending.groupByPath text = (d.groupByPath text).map withoutPending := by
  unfold groupByPath
  rw [passes, checkAlias_withoutPending]
  cases FieldPath.forQuery text <;> rfl

theorem addOrderBy_withoutPending (direction : Direction) :
    d.withoutPending.addOrderBy text direction =
      (d.addOrderBy text direction).map withoutPending := by
  unfold addOrderBy
  rw [passes, checkAlias_withoutPending]
  cases FieldPath.forQuery text <;> rfl

theorem condition_withoutPending (connective : Connective) (operator : Operator)
    (operand : Value) : d.withoutPending.condition connective text operator operand =
      (d.condition connective text operator operand).map withoutPending := by
  unfold condition
  cases read : FieldPath.forQuery text with
  | error fault => rfl
  | ok path =>
    have same : path.text = text := FieldPath.text_of_forQuery read
    change d.withoutPending.addTest connective ⟨path, operator, operand⟩ =
      (d.addTest connective ⟨path, operator, operand⟩).map withoutPending
    unfold addTest
    dsimp only
    rw [same, passes, checkAlias_withoutPending]
    exact congrArg Except.ok (d.mapConditions_withoutPending _)

end

/-- Parts of a list that do not refer to the alias are taken as if no join was waiting. -/
theorem fault_selectParts_withoutPending (waiting : d.pendingAlias? = some aliasName)
    {parts : List String}
    (apart : ∀ part ∈ parts, part ≠ "*" → refersTo aliasName.toList part.toList = false) :
    (d.withoutPending.selectParts parts).fault = (d.selectParts parts).fault := by
  induction parts generalizing d with
  | nil => rfl
  | cons part rest ih =>
    obtain ⟨here, later⟩ := List.forall_mem_cons.mp apart
    rw [selectParts, selectParts]
    split
    · have all : d.KeepsGuards d.all := ⟨rfl, rfl, rfl⟩
      exact ih (all.pendingAlias? waiting) later
    · rename_i other
      rw [selectPath_withoutPending (checkAlias_apart waiting (here other))]
      cases selected : d.selectPath part with
      | error fault => rfl
      | ok next => exact ih ((keepsGuards_selectPath selected).pendingAlias? waiting) later

theorem fault_groupByParts_withoutPending (waiting : d.pendingAlias? = some aliasName)
    {parts : List String} (apart : ∀ part ∈ parts, refersTo aliasName.toList part.toList = false) :
    (d.withoutPending.groupByParts parts).fault = (d.groupByParts parts).fault := by
  induction parts generalizing d with
  | nil => rfl
  | cons part rest ih =>
    obtain ⟨here, later⟩ := List.forall_mem_cons.mp apart
    rw [groupByParts, groupByParts, groupByPath_withoutPending (checkAlias_apart waiting here)]
    cases grouped : d.groupByPath part with
    | error fault => rfl
    | ok next => exact ih ((keepsGuards_groupByPath grouped).pendingAlias? waiting) later

theorem fault_ofExcept_map (d d' : Draft) (made : Except BuildFault Draft) :
    (Outcome.ofExcept d' (made.map withoutPending)).fault = (Outcome.ofExcept d made).fault := by
  cases made <;> rfl

/-- A call that names no field of the alias outside of functions is refused for what it would be
refused for without the join. -/
theorem fault_edit_withoutPending (waiting : d.pendingAlias? = some aliasName) {e : Edit}
    (single : e.isJoining = false)
    (apart : ∀ text ∈ e.fieldTexts, refersTo aliasName.toList text.toList = false) :
    (d.withoutPending.edit e).fault = (d.edit e).fault := by
  cases e with
  | join | on => cases single
  | select list =>
    exact fault_selectParts_withoutPending waiting fun part member other =>
      apart part (List.mem_filter.mpr ⟨member, decide_eq_true other⟩)
  | groupBy list => exact fault_groupByParts_withoutPending waiting apart
  | beginClause c field operator operand =>
    have passes : (d.setClause c).checkAlias field = .ok () :=
      checkAlias_apart waiting (apart field (List.mem_singleton_self _))
    have same := condition_withoutPending passes .and operator operand
    exact (congrArg (fun made => (Outcome.ofExcept _ made).fault) same).trans
      (fault_ofExcept_map ..)
  | condition connective field operator operand =>
    have passes := checkAlias_apart waiting (apart field (List.mem_singleton_self _))
    rw [edit, edit, condition_withoutPending passes, fault_ofExcept_map]
  | orderBy field direction =>
    have passes := checkAlias_apart waiting (apart field (List.mem_singleton_self _))
    rw [edit, edit, addOrderBy_withoutPending passes, fault_ofExcept_map]
  | selectCall call =>
    rw [edit, edit, selectCall, addField_withoutPending, fault_ofExcept_map, selectCall]
  | selectFunction => rw [edit, edit, selectFunction_withoutPending, fault_ofExcept_map]
  | selectCount => rw [edit, edit, selectCount_withoutPending, fault_ofExcept_map]
  | setAlias => rw [edit, edit, setAlias_withoutPending, fault_ofExcept_map]
  | closeGroup => rw [edit, edit, closeGroup_withoutPending, fault_ofExcept_map]
  | setDirection => rw [edit, edit, setDirection_withoutPending, fault_ofExcept_map]
  | page => rw [edit, edit, page_withoutPending, fault_ofExcept_map]
  | setGrouping | selectAll | distinct | source | openGroup | limit | offset => rfl

end

/-- While a join waits for its keys, a call that names a field of its alias is refused, as long as it
names it outside of functions and without backticks around the alias. For fields that it names
otherwise a call is refused only for what it would be refused for without the join: the check looks
at the text of every field outside of functions, and in the text of a path that begins with the
alias it sees the alias exactly where there are no backticks around it. -/
theorem edit_pendingAlias {d : Draft} {aliasName : String}
    (waiting : d.pendingAlias? = some aliasName) (e : Edit) :
    (∀ text ∈ e.fieldTexts, ∀ path, FieldPath.ofText? text = some path →
      path.segments.head? = some (.key aliasName) → path.isTicked = false →
        (d.edit e).fault.isSome = true) ∧
    (e.isJoining = false →
      (∀ text ∈ e.fieldTexts, refersTo aliasName.toList text.toList = false) →
        (d.edit e).fault = (d.withoutPending.edit e).fault) ∧
    ∀ text path, FieldPath.ofText? text = some path →
      path.segments.head? = some (.key aliasName) →
        (refersTo aliasName.toList text.toList = true ↔ path.isTicked = false) := by
  refine ⟨fun text member path read first bare => ?_, fun single apart => ?_, ?_⟩
  · exact fault_edit_of_refersTo waiting ((refersTo_iff read first).mpr bare) read member
  · exact (fault_edit_withoutPending waiting single apart).symm
  · exact fun text path read first => refersTo_iff read first

/-- A left join under an alias that has no keys yet. -/
def joiningDraft : Draft :=
  ((empty .default).edit (.join .left ((empty .default).edit (.source "t")).draft (some "o"))).draft

/-- The second field of a list, and the sum of a field. -/
theorem edit_pendingAlias_second :
    let listed : Edit := .select "a, o[].b"
    let path : FieldPath := ⟨"o[].b", [.key "o", .each, .key "b"]⟩
    let sum : Edit := .selectFunction .sum ["o.total"] []
    (joiningDraft.pendingAlias? = some "o" ∧ "o[].b" ∈ listed.fieldTexts ∧
        FieldPath.ofText? "o[].b" = some path ∧ path.segments.head? = some (.key "o") ∧
        path.isTicked = false ∧ sum.isJoining = false ∧
        ∀ text ∈ sum.fieldTexts, refersTo "o".toList text.toList = false) ∧
      (joiningDraft.edit listed).fault.isSome = true ∧
      (joiningDraft.edit sum).fault = (joiningDraft.withoutPending.edit sum).fault ∧
      (refersTo "o".toList "o[].b".toList = true ↔ path.isTicked = false) := by
  intro listed path sum
  have waiting : joiningDraft.pendingAlias? = some "o" := by decide +kernel
  have member : "o[].b" ∈ listed.fieldTexts := by decide +kernel
  have read : FieldPath.ofText? "o[].b" = some path := by decide +kernel
  have bare : path.isTicked = false := by decide +kernel
  have unreferred : ∀ text ∈ sum.fieldTexts, refersTo "o".toList text.toList = false := by decide
  exact ⟨⟨waiting, member, read, rfl, bare, rfl, unreferred⟩,
    (edit_pendingAlias waiting listed).1 _ member path read rfl bare,
    (edit_pendingAlias waiting sum).2.1 rfl unreferred,
    (edit_pendingAlias waiting listed).2.2 _ path read rfl⟩

/-- In a function, and between backticks, the alias of a join without keys is accepted. -/
theorem not_edit_pendingAlias :
    let ticked := "\x60o\x60.total"
    joiningDraft.Reached ∧ joiningDraft.pendingAlias? = some "o" ∧
      FieldPath.ofText? "o.total" = some ⟨"o.total", [.key "o", .key "total"]⟩ ∧
      (joiningDraft.edit (.selectFunction .sum ["o.total"] [])).fault.isNone = true ∧
      FieldPath.ofText? ticked = some ⟨ticked, [.key "o", .key "total"]⟩ ∧
      (joiningDraft.edit (.condition .and ticked .greater (.int 1))).fault.isNone = true := by
  intro ticked
  have right := Reached.edit (.source "t") (.empty .default) (by simp [Edit.right?])
  exact ⟨reached_join (.empty .default) right .left (some "o"), by decide +kernel,
    by decide +kernel, by decide +kernel, by decide +kernel, by decide +kernel⟩

end Draft

end RecordQuery
