import RecordQuery.Proofs.Call.Ordinary
import RecordQuery.Proofs.Draft.Changes
import RecordQuery.Proofs.Grouping.Bucket
import RecordQuery.Proofs.Plan.Errors

namespace RecordQuery

/-- Whether neither a run nor any of the items that it gives is an execution error. -/
structure Rows.Ordinary (ran : Except QueryError (List Item)) : Prop where
  whole : IsOrdinary ran
  items : ∀ items, ran = .ok items → ∀ item ∈ items, IsOrdinary item

section

variable (r : Record) (mode : Strictness)

theorem Predicate.isOrdinary_evaluate (p : Predicate) : IsOrdinary (p.evaluate r mode) := by
  unfold evaluate
  split
  · exact .ok _
  · exact .ofValue _

namespace Condition

mutual

theorem isOrdinary_evaluate : (c : Condition) → IsOrdinary (evaluate r mode c)
  | .test p => p.isOrdinary_evaluate r mode
  | .group children => (isOrdinary_evaluateAll none children).map _

theorem isOrdinary_evaluateAll :
    (before : Option Bool) → (children : List (Connective × Condition)) →
      IsOrdinary (evaluateAll r mode before children)
  | before, [] => .ok before
  | before, (connective, c) :: rest => by
    have first := isOrdinary_evaluate c
    rw [evaluateAll]
    split
    · rename_i e failed
      exact .error (first e failed)
    · exact isOrdinary_evaluateAll _ rest

end

end Condition

end

/-- The fields of a group that are computed from its first row, for what its bucket holds. -/
def Bucket.rowFields : List SelectedField → List (Option Accumulator) → List SelectedField
  | _ :: fields, some _ :: gathered => rowFields fields gathered
  | f :: fields, none :: gathered => f :: rowFields fields gathered
  | _, _ => []

/-- The fields that a plan computes from one row at a time, in all of its stages and in those of the
right sides of its joins. -/
def Plan.rowFields : Plan → List SelectedField
  | .scan _ => []
  | .join input right _ => input.rowFields ++ right.rowFields
  | .project input _ fields => input.rowFields ++ fields
  | .aggregate input _ fields _ =>
    input.rowFields ++ Bucket.rowFields fields (Bucket.start fields .empty).gathered
  | .filter input _ | .having input _ | .distinct input | .sort input _ _ | .paginate input _ _ =>
    input.rowFields

namespace Bucket

variable {fields : List SelectedField}

/-- A bucket that fits takes what is no aggregate, and nothing else, from one row. -/
theorem rowFields_of_fits {gathered : List (Option Accumulator)}
    (fits : gathered.map Option.isSome = fields.map SelectedField.isAggregate) :
    rowFields fields gathered = fields.filter fun f => !f.isAggregate := by
  induction fields generalizing gathered with
  | nil => cases gathered <;> rfl
  | cons f rest ih =>
    cases gathered with
    | nil => cases fits
    | cons held others =>
      obtain ⟨here, later⟩ := List.cons.inj fits
      cases held with
      | some a =>
        have grouped : f.isAggregate = true := here.symm
        rw [rowFields, ih later, List.filter_cons_of_neg (by simp [grouped])]
      | none =>
        have single : f.isAggregate = false := here.symm
        rw [rowFields, ih later, List.filter_cons_of_pos (by simp [single])]

theorem rowFields_start (fields : List SelectedField) (first : Record) :
    rowFields fields (start fields first).gathered = fields.filter fun f => !f.isAggregate :=
  rowFields_of_fits (fits_start fields first)

section

variable {ambient : Ambient}

theorem isOrdinary_addFields {first : Record} {gathered : List (Option Accumulator)}
    (each : ∀ f ∈ rowFields fields gathered, ∀ raw row, IsOrdinary (f.evaluate ambient raw row))
    (row : Record) : IsOrdinary (addFields ambient first fields gathered row) := by
  induction fields generalizing gathered row with
  | nil => exact .ok _
  | cons f rest ih =>
    cases gathered with
    | nil => exact .ok _
    | cons held others =>
      cases held with
      | some a => exact ih each _
      | none =>
        rw [rowFields, List.forall_mem_cons] at each
        obtain ⟨here, later⟩ := each
        rw [addFields]
        split
        · rename_i e failed
          exact .error (here first row e failed)
        · exact ih later _

/-- The row of a bucket is ordinary if the fields are that a new bucket takes from one row. -/
theorem isOrdinary_row {b : Bucket} (fits : b.Fits fields)
    (each : ∀ f ∈ rowFields fields (start fields .empty).gathered, ∀ raw row,
      IsOrdinary (f.evaluate ambient raw row)) (selectAll : Bool) :
    IsOrdinary (b.row ambient selectAll fields) := by
  rw [rowFields_start, ← rowFields_of_fits fits] at each
  exact isOrdinary_addFields each _

end

theorem isOrdinary_gather (r : Record) (held : List (Option Accumulator)) :
    IsOrdinary (gather r held) := by
  rw [gather_eq_mapM]
  refine .mapM fun a _ => ?_
  cases a with
  | none => exact .ok _
  | some a => exact (a.isOrdinary_add r).map _

theorem isOrdinary_add (b : Bucket) (r : Record) : IsOrdinary (b.add r) :=
  (isOrdinary_gather r b.gathered).map _

end Bucket

namespace Rows

theorem isOrdinary_collect {items : List Item} (each : ∀ item ∈ items, IsOrdinary item) :
    IsOrdinary (collect items) := by
  induction items with
  | nil => exact .ok _
  | cons item rest ih =>
    obtain ⟨first, later⟩ := List.forall_mem_cons.mp each
    cases item with
    | error e => exact .error (first e rfl)
    | ok r => exact (ih later).map _

theorem isOrdinary_ofAll {all : Except QueryError (List Record)} (whole : IsOrdinary all) :
    ∀ item ∈ ofAll all, IsOrdinary item := by
  cases all with
  | error e => exact List.forall_mem_singleton.mpr (.error (whole e rfl))
  | ok rows => exact List.forall_mem_map.mpr fun r _ => .ok r

theorem isOrdinary_groupKey (paths : List FieldPath) (r : Record) :
    IsOrdinary (groupKey paths r) := by
  refine .mapM fun path _ => ?_
  split
  · exact .ok _
  · exact .ofValue _

theorem isOrdinary_addToGroup (fields : List SelectedField) (key : List KeyPart) (r : Record)
    (groups : List (List KeyPart × Bucket)) : IsOrdinary (addToGroup fields key r groups) := by
  induction groups with
  | nil => exact (Bucket.isOrdinary_add _ r).map _
  | cons group rest ih =>
    rw [addToGroup]
    split
    · exact (Bucket.isOrdinary_add _ r).map _
    · exact ih.map _

theorem isOrdinary_groupInto (fields : List SelectedField) (paths : List FieldPath)
    (groups : List (List KeyPart × Bucket)) {items : List Item}
    (each : ∀ item ∈ items, IsOrdinary item) : IsOrdinary (groupInto fields paths groups items) := by
  induction items generalizing groups with
  | nil => exact .ok _
  | cons item rest ih =>
    obtain ⟨first, later⟩ := List.forall_mem_cons.mp each
    cases item with
    | error e => exact .error (first e rfl)
    | ok r =>
      rw [groupInto]
      split
      · rename_i e failed
        exact .error (isOrdinary_groupKey paths r e failed)
      split
      · rename_i e failed
        exact .error (isOrdinary_addToGroup fields _ r groups e failed)
      · exact ih _ later

theorem isOrdinary_keyedAll (keys : List OrderKey) {items : List Item}
    (each : ∀ item ∈ items, IsOrdinary item) : IsOrdinary (keyedAll keys items) := by
  induction items with
  | nil => exact .ok _
  | cons item rest ih =>
    obtain ⟨first, later⟩ := List.forall_mem_cons.mp each
    cases item with
    | error e => exact .error (first e rfl)
    | ok r =>
      have read : IsOrdinary (keyed keys r) :=
        (IsOrdinary.mapM fun _ _ => .mapError _).bind fun _ _ => .ok _
      rw [keyedAll]
      split
      · rename_i e failed
        exact .error (read e failed)
      · exact (ih later).map _

/-- What a stage does that gives no execution error where it is given none. -/
def KeepsOrdinary (work : List Item → List Item) : Prop :=
  ∀ items, (∀ item ∈ items, IsOrdinary item) → ∀ item ∈ work items, IsOrdinary item

theorem keepsOrdinary_of_subset {work : List Item → List Item} (subset : ∀ items, work items ⊆ items) :
    KeepsOrdinary work :=
  fun items each item member => each item (subset items member)

theorem keepsOrdinary_filter (mode : Strictness) (conditions : ConditionTree) :
    KeepsOrdinary (filter mode conditions) := by
  intro items each item member
  obtain ⟨given, inside, kept⟩ := List.mem_filterMap.mp member
  cases given with
  | error e =>
    cases kept
    exact each _ inside
  | ok r =>
    have tested := Condition.isOrdinary_evaluate r mode (.group conditions.children)
    dsimp only at kept
    split at kept
    · cases kept
      exact .ok r
    · cases kept
    · rename_i e failed
      cases kept
      exact .error (tested e failed)

theorem isOrdinary_addFields {ambient : Ambient} {raw : Record} {fields : List SelectedField}
    (each : ∀ f ∈ fields, ∀ raw row, IsOrdinary (f.evaluate ambient raw row)) (row : Record) :
    IsOrdinary (addFields ambient raw fields row) := by
  induction fields generalizing row with
  | nil => exact .ok _
  | cons f rest ih =>
    obtain ⟨here, later⟩ := List.forall_mem_cons.mp each
    rw [addFields]
    split
    · rename_i e failed
      exact .error (here raw row e failed)
    · exact ih later _

theorem keepsOrdinary_project {ambient : Ambient} {fields : List SelectedField}
    (each : ∀ f ∈ fields, ∀ raw row, IsOrdinary (f.evaluate ambient raw row)) (selectAll : Bool) :
    KeepsOrdinary (mapRows (projectRow ambient selectAll fields)) := by
  intro items given item member
  obtain ⟨before, inside, rfl⟩ := List.mem_map.mp member
  exact (given before inside).bind fun raw _ => isOrdinary_addFields each _

/-- Of the fields of a group only those matter that are computed from one row. -/
theorem keepsOrdinary_aggregate {ambient : Ambient} {fields : List SelectedField}
    (each : ∀ f ∈ Bucket.rowFields fields (Bucket.start fields .empty).gathered, ∀ raw row,
      IsOrdinary (f.evaluate ambient raw row)) (selectAll : Bool) (groupBy : List FieldPath) :
    KeepsOrdinary fun items => ofAll (aggregate ambient selectAll fields groupBy items) := by
  intro items given
  refine isOrdinary_ofAll ((isOrdinary_groupInto _ _ _ given).bind fun groups grouped => ?_)
  refine isOrdinary_collect (List.forall_mem_map.mpr fun b member => ?_)
  exact Bucket.isOrdinary_row (fits_buckets grouped groupBy b member) each selectAll

theorem keepsOrdinary_sort (shuffle : Shuffle) (keys : List OrderKey) :
    KeepsOrdinary fun items => ofAll (sort shuffle keys items) :=
  fun _ each => isOrdinary_ofAll ((isOrdinary_keyedAll keys each).bind fun _ _ => .ok _)

end Rows

/-- A join makes no errors of its own. -/
theorem JoinTerms.keepsOrdinary_relation (terms : JoinTerms) (rows : List Record) :
    Rows.KeepsOrdinary (terms.relation rows) := by
  intro left each item member
  rcases List.mem_append.mp member with front | behind
  · obtain ⟨given, inside, among⟩ := List.mem_flatMap.mp front
    cases given with
    | error e => exact List.mem_singleton.mp among ▸ each _ inside
    | ok l =>
      rw [leftItems] at among
      split at among
      · split at among
        · exact List.mem_singleton.mp among ▸ .ok _
        · cases among
      · obtain ⟨right, -, rfl⟩ := List.mem_map.mp among
        exact .ok _
  · rw [rightItems] at behind
    split at behind
    · obtain ⟨right, -, rfl⟩ := List.mem_map.mp behind
      exact .ok _
    · cases behind

namespace Plan

variable {ambient : Ambient} {source : Source}

theorem IsStage.ordinary {stage : Plan → Plan} {work : Ambient → List Item → List Item}
    {holds : Bool} (isStage : IsStage stage work holds) {input : Plan}
    (keeps : Rows.KeepsOrdinary (work ambient))
    (given : Rows.Ordinary (input.run ambient source)) :
    Rows.Ordinary ((stage input).run ambient source) := by
  refine ⟨?_, fun items ran => ?_⟩
  · rw [isStage.run]
    exact given.whole.map _
  · obtain ⟨before, inner, rfl⟩ := isStage.exists_given ran
    exact keeps before (given.items before inner)

theorem ordinary_join {input right : Plan} (terms : JoinTerms)
    (left : Rows.Ordinary (input.run ambient source))
    (other : Rows.Ordinary (right.run ambient source)) :
    Rows.Ordinary ((join input right terms).run ambient source) := by
  refine ⟨?_, fun items ran => ?_⟩
  · refine left.whole.bind fun leftItems _ => other.whole.bind fun rightItems given => ?_
    refine (Rows.isOrdinary_collect (other.items _ given)).bind fun rows _ => ?_
    obtain ⟨j, made, -⟩ := Joiner.ofRows_ok (id : terms.operator.isEquality = true → _) rows
    rw [made]
    exact .ok _
  · obtain ⟨before, rows, inner, -, rfl⟩ := exists_of_run_join ran
    exact terms.keepsOrdinary_relation rows before (left.items before inner)

/-- A plan runs without an execution error over a source without one, if the fields do that it
computes from one row at a time. -/
theorem ordinary_run {plan : Plan}
    (each : ∀ f ∈ plan.rowFields, ∀ raw row, IsOrdinary (f.evaluate ambient raw row))
    (opens : ∀ locator, Rows.Ordinary (source.records locator)) :
    Rows.Ordinary (plan.run ambient source) := by
  induction plan with
  | scan locator => exact opens _
  | join input right terms left other =>
    obtain ⟨first, second⟩ := List.forall_mem_append.mp each
    exact ordinary_join terms (left first) (other second)
  | filter input conditions ih =>
    exact (isStage_filter conditions).ordinary (Rows.keepsOrdinary_filter _ _) (ih each)
  | project input selectAll fields ih =>
    obtain ⟨first, own⟩ := List.forall_mem_append.mp each
    exact (isStage_select false selectAll fields []).ordinary
      (Rows.keepsOrdinary_project own selectAll) (ih first)
  | aggregate input selectAll fields groupBy ih =>
    obtain ⟨first, own⟩ := List.forall_mem_append.mp each
    exact (isStage_select true selectAll fields groupBy).ordinary
      (Rows.keepsOrdinary_aggregate own selectAll groupBy) (ih first)
  | having input conditions ih =>
    exact (isStage_having conditions).ordinary (Rows.keepsOrdinary_filter _ _) (ih each)
  | distinct input ih =>
    exact isStage_distinct.ordinary (Rows.keepsOrdinary_of_subset Rows.distinct_subset) (ih each)
  | sort input keys seed ih =>
    exact (isStage_sort keys seed).ordinary (Rows.keepsOrdinary_sort _ keys) (ih each)
  | paginate input offset limit ih =>
    exact (isStage_paginate offset limit).ordinary
      (Rows.keepsOrdinary_of_subset (Rows.page_subset offset limit)) (ih each)

end Plan

end RecordQuery
