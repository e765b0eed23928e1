import RecordQuery.Proofs.Plan.Ordinary

namespace RecordQuery

/-- The calls among fields have been made of arguments that their functions take. -/
def SelectedField.AreMade (fields : List SelectedField) : Prop :=
  ∀ f ∈ fields, ∀ c, f.call? = some c → c.IsMade

theorem Call.isKind_isMade : Call.IsKind Call.IsMade :=
  ⟨isMade_of_make, isMade_of_ofTexts⟩

theorem SelectionChange.areMade {fields fields' : List SelectedField}
    (change : SelectionChange Call.IsMade fields fields') (made : SelectedField.AreMade fields) :
    SelectedField.AreMade fields' := by
  cases change with
  | keeps => exact made
  | clears => exact List.forall_mem_nil _
  | adds e kind =>
    refine List.forall_mem_append.mpr ⟨made, List.forall_mem_singleton.mpr fun c called => ?_⟩
    cases e with
    | path p => cases called
    | call own =>
      cases called
      exact kind c rfl
  | renames name all =>
    rw [all] at made
    obtain ⟨front, last⟩ := List.forall_mem_append.mp made
    refine List.forall_mem_append.mpr ⟨front, List.forall_mem_singleton.mpr ?_⟩
    -- The alias changes the key and not what is computed.
    exact List.forall_mem_singleton.mp last

namespace Plan

theorem mem_rowFields_of_stageIf {stage : Plan → Plan} {present : Bool} {input : Plan}
    {f : SelectedField} (member : f ∈ (stageIf present stage input).rowFields)
    (passes : (stage input).rowFields = input.rowFields) : f ∈ input.rowFields := by
  cases present with
  | true => exact passes ▸ member
  | false => exact member

/-- The stage that makes the output rows computes no aggregate from one row. -/
theorem mem_rowFields_select {input : Plan} {selectAll : Bool} {fields : List SelectedField}
    {groupBy : List FieldPath} {f : SelectedField}
    (member : f ∈ ((if !groupBy.isEmpty || fields.any SelectedField.isAggregate then
      (Plan.aggregate · selectAll fields groupBy) else (.project · selectAll fields))
        input).rowFields) :
    f ∈ input.rowFields ∨ f ∈ fields ∧ f.isAggregate = false := by
  split at member
  · rcases List.mem_append.mp member with earlier | own
    · exact .inl earlier
    · rw [Bucket.rowFields_start, List.mem_filter, Bool.not_eq_true'] at own
      exact .inr own
  · rename_i ungrouped
    rcases List.mem_append.mp member with earlier | own
    · exact .inl earlier
    · rw [Bool.or_eq_true, not_or, List.any_eq_true] at ungrouped
      refine .inr ⟨own, Bool.eq_false_iff.mpr fun aggregate => ungrouped.2 ⟨f, own, aggregate⟩⟩

theorem mem_rowFields_ofJoins {input : Plan} {joins : List Join} {f : SelectedField}
    (member : f ∈ (ofJoins input joins).rowFields) :
    f ∈ input.rowFields ∨ ∃ j ∈ joins, f ∈ (ofQuery j.right).rowFields := by
  induction joins generalizing input with
  | nil => exact .inl member
  | cons first rest ih =>
    obtain ⟨right, terms⟩ := first
    rcases ih member with here | ⟨j, among, later⟩
    · exact (List.mem_append.mp here).imp_right fun own => ⟨_, List.mem_cons_self .., own⟩
    · exact .inr ⟨j, List.mem_cons_of_mem _ among, later⟩

/-- What a plan computes from one row are fields of the query, or of a query that it is joined to. -/
theorem mem_rowFields_ofQuery {q : Query} {f : SelectedField} (member : f ∈ (ofQuery q).rowFields) :
    f ∈ q.fields ∧ f.isAggregate = false ∨ ∃ j ∈ q.joins, f ∈ (ofQuery j.right).rowFields := by
  obtain ⟨selectAll, fields, distinct, locator, joins, before, after, groupBy, orderBy, limit,
    offset, settings⟩ := q
  rw [ofQuery] at member
  have sorted := mem_rowFields_of_stageIf member rfl
  have once := mem_rowFields_of_stageIf sorted rfl
  have kept := mem_rowFields_of_stageIf once rfl
  have selected := mem_rowFields_of_stageIf kept rfl
  rcases mem_rowFields_select selected with filtered | own
  · have joins := mem_rowFields_of_stageIf filtered rfl
    rcases mem_rowFields_ofJoins joins with scanned | joined
    · cases scanned
    · exact .inr joined
  · exact .inl own

/-- Where all calls have been made of what their functions take, a plan computes from one row only
what has no aggregate and no star in it. -/
theorem isRowwise_of_mem_rowFields {q : Query} (made : q.FieldsAre SelectedField.AreMade)
    {f : SelectedField} (member : f ∈ (ofQuery q).rowFields) :
    ∀ c, f.call? = some c → c.toArgument.IsRowwise := by
  induction made with
  | intro own _ ih =>
    rcases mem_rowFields_ofQuery member with ⟨inside, single⟩ | ⟨j, joined, later⟩
    · intro c called
      have row : c.isAggregate = false := by
        unfold SelectedField.isAggregate at single
        unfold SelectedField.call? at called
        split at called
        · cases called
        · rename_i c' same
          cases called
          rwa [same] at single
      exact (own f inside c called).isRowwise row
    · exact ih j joined later

end Plan

namespace Draft

/-- Whatever calls and statements have made a query, as long as the calls that are handed in have
been made of arguments that their functions take: a star stands in COUNT alone and an aggregate in
no other call, at no depth; what the plan computes from one row has no aggregate in it, on either
side of a join; and over a source without execution errors the query gives none. -/
theorem execute_ordinary {d : Draft} {q : Query} (reached : d.ReachedWith Call.IsMade)
    (built : d.build = .ok q) :
    (∀ part : Query, part.PartOf q → ∀ f ∈ part.fields, ∀ c, f.call? = some c →
      ∀ a ∈ c.arguments, a.IsRowwise ∨ a = .star ∧ c.kind = .count) ∧
    (∀ f ∈ (Plan.ofQuery q).rowFields, ∀ c, f.call? = some c → c.toArgument.IsRowwise) ∧
    ∀ ambient source, (∀ locator, Rows.Ordinary (source.records locator)) →
      Rows.Ordinary ((q.execute ambient source).map Results.items) := by
  have made : q.FieldsAre SelectedField.AreMade :=
    reached.fieldsAre Call.isKind_isMade (List.forall_mem_nil _) SelectionChange.areMade built
  have rowwise {f : SelectedField} (member : f ∈ (Plan.ofQuery q).rowFields) :=
    Plan.isRowwise_of_mem_rowFields made member
  refine ⟨fun part inside f member c called => (made.part inside f member c called).arguments,
    fun f => rowwise, fun ambient source opens => ?_⟩
  have ran : Rows.Ordinary ((Plan.ofQuery q).run ambient source) :=
    Plan.ordinary_run (fun f member => f.isOrdinary_evaluate ambient (rowwise member)) opens
  refine ⟨IsOrdinary.map _ (ran.whole.bind fun items given => ?_), fun items executed => ?_⟩
  · split
    · exact (Rows.isOrdinary_collect (ran.items items given)).bind fun _ _ => .ok _
    · exact .ok _
  · cases results : q.execute ambient source with
    | error e =>
      rw [results] at executed
      cases executed
    | ok found =>
      rw [results] at executed
      cases executed
      exact ran.items _ (Query.run_of_execute results)

/-- One function in another, and a count for each group. -/
def groupedDraft : Draft :=
  ((empty .default).read "SELECT UPPER(TRIM(a)), COUNT(*) GROUP BY a").1

/-- A call that is handed in, with another one in it, and a join to a query with groups. -/
def callingDraft : Draft :=
  let call : Call := ⟨.concat, [.call .lower [.field ⟨"b", [.key "b"]⟩], .literal (.int 1)]⟩
  (empty .default).editAll
    [.selectCall call, .join .left groupedDraft (some "r"), .on "b" .less "r.a"]

theorem reachedWith_callingDraft : callingDraft.ReachedWith Call.IsMade := by
  have grouped : groupedDraft.ReachedWith Call.IsMade := .read _ (.empty .default)
  have lower : Call.IsMade ⟨.lower, [.field ⟨"b", [.key "b"]⟩]⟩ := by
    refine .intro rfl fun kind arguments member => ?_
    cases List.mem_singleton.mp member
  have concat : Call.IsMade
      ⟨.concat, [.call .lower [.field ⟨"b", [.key "b"]⟩], .literal (.int 1)]⟩ := by
    refine .intro rfl fun kind arguments member => ?_
    rcases List.mem_cons.mp member with same | later
    · cases same
      exact lower
    · cases List.mem_singleton.mp later
  refine ReachedWith.editAll (.empty .default) (fun e member call same => ?_)
    fun e member joined same => ?_
  · simp only [List.mem_cons, List.not_mem_nil, or_false] at member
    rcases member with rfl | rfl | rfl <;> cases same
    exact concat
  · simp only [List.mem_cons, List.not_mem_nil, or_false] at member
    rcases member with rfl | rfl | rfl <;> cases same
    exact grouped

theorem execute_ordinary_calling :
    let ambient : Ambient := ⟨⟨0, 0, 0⟩, ""⟩
    let source : Source := ⟨"", fun _ => .ok [.ok ⟨[("a", .int 2)]⟩, .error (.source .malformed)]⟩
    ∃ q, callingDraft.ReachedWith Call.IsMade ∧ callingDraft.build = .ok q ∧
      (∀ locator, Rows.Ordinary (source.records locator)) ∧
      (Plan.ofQuery q).rowFields.map SelectedField.name =
        ["UPPER(TRIM(a))", "CONCAT(LOWER(b), 1)"] ∧
      (∀ part : Query, part.PartOf q → ∀ f ∈ part.fields, ∀ c, f.call? = some c →
        ∀ a ∈ c.arguments, a.IsRowwise ∨ a = .star ∧ c.kind = .count) ∧
      (∀ f ∈ (Plan.ofQuery q).rowFields, ∀ c, f.call? = some c → c.toArgument.IsRowwise) ∧
      Rows.Ordinary ((q.execute ambient source).map Results.items) := by
  intro ambient source
  have reached := reachedWith_callingDraft
  have opens (locator : Locator) : Rows.Ordinary (source.records locator) := by
    refine ⟨.ok _, fun items same => ?_⟩
    cases same
    exact List.forall_mem_cons.mpr ⟨.ok _, List.forall_mem_singleton.mpr (.error rfl)⟩
  have found : (callingDraft.build.toOption.map fun q =>
      (Plan.ofQuery q).rowFields.map SelectedField.name) =
        some ["UPPER(TRIM(a))", "CONCAT(LOWER(b), 1)"] := by
    decide +kernel
  generalize callingDraft = d at found reached
  cases built : d.build with
  | error fault =>
    rw [built] at found
    cases found
  | ok q =>
    rw [built] at found
    obtain ⟨placed, rowwise, ordinary⟩ := execute_ordinary reached built
    exact ⟨q, reached, rfl, opens, Option.some.inj found, placed, rowwise,
      ordinary ambient source opens⟩

end Draft

end RecordQuery
