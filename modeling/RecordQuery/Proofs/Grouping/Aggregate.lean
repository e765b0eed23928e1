import RecordQuery.Proofs.Grouping.Partition
import RecordQuery.Proofs.Record.Keys
import RecordQuery.Proofs.Rows.Collect

namespace RecordQuery

namespace Rows

/-- The output row of a group, field by field: an aggregate has run over exactly the rows of the
group, and any other field has been computed from the first one of them when the fields before it
were there. -/
structure IsGroupRow (ambient : Ambient) (selectAll : Bool) (fields : List SelectedField)
    (group : List Record) (row : Record) : Prop where
  built : groupRow ambient selectAll fields group = .ok row
  aggregates : ∀ f ∈ fields, ∀ call, f.aggregate? = some call →
    ∃ a, Accumulator.ofRows call group = .ok a ∧ row.get? f.name = some a.result
  others : ∀ before f after, fields = before ++ f :: after → f.aggregate? = none →
    ∃ built v, groupRow ambient selectAll before group = .ok built ∧
      f.evaluate ambient (group.headD .empty) built = .ok v ∧ row.get? f.name = some v

section

variable {ambient : Ambient} {selectAll : Bool} {fields : List SelectedField}
  {group : List Record} {row : Record}

theorem addGroupFields_cons {f : SelectedField} {rest : List SelectedField} {built : Record}
    (run : addGroupFields ambient group (f :: rest) built = .ok row) :
    ∃ v, f.ofGroup ambient group built = .ok v ∧
      addGroupFields ambient group rest (built.insert f.name v) = .ok row := by
  rw [addGroupFields, List.foldlM_cons] at run
  obtain ⟨next, first, later⟩ := exists_of_bind_ok run
  obtain ⟨v, value, rfl⟩ := exists_of_map_ok first
  exact ⟨v, value, later⟩

theorem addGroupFields_append {before after : List SelectedField} {built : Record}
    (run : addGroupFields ambient group (before ++ after) built = .ok row) :
    ∃ middle, addGroupFields ambient group before built = .ok middle ∧
      addGroupFields ambient group after middle = .ok row := by
  induction before generalizing built with
  | nil => exact ⟨built, rfl, run⟩
  | cons f rest ih =>
    obtain ⟨v, value, later⟩ := addGroupFields_cons run
    obtain ⟨middle, first, last⟩ := ih later
    refine ⟨middle, ?_, last⟩
    rw [addGroupFields, List.foldlM_cons, value]
    exact first

/-- Later fields leave a field of another name as it is. -/
theorem get?_addGroupFields {built : Record} {key : String} (absent : ∀ f ∈ fields, key ≠ f.name)
    (run : addGroupFields ambient group fields built = .ok row) :
    row.get? key = built.get? key := by
  induction fields generalizing built with
  | nil =>
    cases run
    rfl
  | cons f rest ih =>
    obtain ⟨v, _, later⟩ := addGroupFields_cons run
    rw [ih (fun g member => absent g (List.mem_cons_of_mem _ member)) later,
      built.get?_insert_other (absent f (List.mem_cons_self ..))]

theorem groupRow_field (names : (fields.map SelectedField.name).Nodup)
    (run : groupRow ambient selectAll fields group = .ok row) {before after : List SelectedField}
    {f : SelectedField} (here : fields = before ++ f :: after) :
    ∃ built v, groupRow ambient selectAll before group = .ok built ∧
      f.ofGroup ambient group built = .ok v ∧ row.get? f.name = some v := by
  subst here
  obtain ⟨built, first, rest⟩ := addGroupFields_append run
  obtain ⟨v, value, later⟩ := addGroupFields_cons rest
  have absent : ∀ g ∈ after, f.name ≠ g.name := by
    simp only [List.map_append, List.map_cons, List.nodup_append, List.nodup_cons] at names
    exact fun g member same => names.2.1.1 (same ▸ List.mem_map_of_mem member)
  have kept := get?_addGroupFields absent later
  exact ⟨built, v, first, value, kept.trans (built.get?_insert_self f.name v)⟩

theorem isGroupRow (names : (fields.map SelectedField.name).Nodup)
    (run : groupRow ambient selectAll fields group = .ok row) :
    IsGroupRow ambient selectAll fields group row where
  built := run
  aggregates := by
    intro f member call aggregate
    obtain ⟨before, after, here⟩ := List.append_of_mem member
    obtain ⟨built, v, _, value, found⟩ := groupRow_field names run here
    simp only [SelectedField.ofGroup, aggregate] at value
    obtain ⟨a, result, rfl⟩ := exists_of_map_ok value
    exact ⟨a, result, found⟩
  others := by
    intro before f after here plain
    obtain ⟨built, v, first, value, found⟩ := groupRow_field names run here
    simp only [SelectedField.ofGroup, plain] at value
    exact ⟨built, v, first, value, found⟩

/-- The row of a group can only be made when no aggregate fails. -/
theorem gathers_of_addGroupFields {built : Record}
    (run : addGroupFields ambient group fields built = .ok row) : Gathers fields group := by
  induction fields generalizing built with
  | nil => exact fun f absent => nomatch absent
  | cons f rest ih =>
    obtain ⟨v, value, later⟩ := addGroupFields_cons run
    have first : ∃ gathered, f.gatheredOf group = .ok gathered := by
      unfold SelectedField.gatheredOf
      unfold SelectedField.ofGroup at value
      cases aggregate : f.aggregate? with
      | none => exact ⟨none, rfl⟩
      | some call =>
        simp only [aggregate] at value
        obtain ⟨a, result, -⟩ := exists_of_map_ok value
        exact ⟨some a, congrArg (Except.map some) result⟩
    exact List.forall_mem_cons.mpr ⟨first, ih later⟩

end

theorem tuples_isEmpty (paths : List FieldPath) (rows : List Record) :
    (tuples paths rows).isEmpty = rows.isEmpty := by
  cases rows with
  | nil => rfl
  | cons r rest =>
    have member : tupleOf paths r ∈ tuples paths (r :: rest) :=
      mem_tuples.mpr ⟨r, List.mem_cons_self .., rfl⟩
    cases found : tuples paths (r :: rest) with
    | nil =>
      rw [found] at member
      cases member
    | cons => rfl

/-- The buckets that output rows are made from are those of the tuples. -/
theorem buckets_eq (fields : List SelectedField) (groupBy : List FieldPath) (rows : List Record) :
    let groups := groupsOf fields (members (groupPaths groupBy fields) rows)
      (tuples (groupPaths groupBy fields) rows)
    (if groups.isEmpty && groupBy.isEmpty then [Bucket.start fields .empty]
      else groups.map Prod.snd) =
      (groupTuples fields groupBy rows).map fun tuple =>
        Bucket.ofGroup fields (members (groupPaths groupBy fields) rows tuple) := by
  intro groups
  have empty : groups.isEmpty = rows.isEmpty := by
    rw [← tuples_isEmpty (groupPaths groupBy fields) rows]
    exact List.isEmpty_map
  rw [empty, groupTuples]
  split
  · rename_i nothing
    rw [Bool.and_eq_true, List.isEmpty_iff] at nothing
    rw [nothing.1, Bucket.start_empty]
    rfl
  · exact List.map_map ..

/-- The output row of a group for which nothing fails. -/
def rowOfGroup (ambient : Ambient) (selectAll : Bool) (fields : List SelectedField)
    (group : List Record) : Record :=
  match groupRow ambient selectAll fields group with
  | .ok row => row
  | .error _ => .empty

/-- Grouping is a partition. There is one row for each tuple of group values, in the order in which
the tuples first appear, and it is made from exactly the rows that carry the tuple. -/
theorem aggregate_rows {ambient : Ambient} {selectAll : Bool} {fields : List SelectedField}
    {groupBy : List FieldPath} {rows : List Record}
    (names : (fields.map SelectedField.name).Nodup)
    (plain : ∀ r ∈ rows, ∀ path ∈ groupPaths groupBy fields, (r.valueAt path).WithoutDoubles)
    (succeeds : ∀ tuple ∈ groupTuples fields groupBy rows, ∃ row,
      groupRow ambient selectAll fields (members (groupPaths groupBy fields) rows tuple) =
        .ok row) :
    ∃ rowOf : List Value → Record,
      aggregate ambient selectAll fields groupBy (rows.map .ok) =
        .ok ((groupTuples fields groupBy rows).map rowOf) ∧
      ∀ tuple ∈ groupTuples fields groupBy rows,
        IsGroupRow ambient selectAll fields
          (members (groupPaths groupBy fields) rows tuple) (rowOf tuple) := by
  have made : ∀ tuple ∈ groupTuples fields groupBy rows,
      groupRow ambient selectAll fields (members (groupPaths groupBy fields) rows tuple) =
        .ok (rowOfGroup ambient selectAll fields
          (members (groupPaths groupBy fields) rows tuple)) := by
    intro tuple member
    obtain ⟨row, run⟩ := succeeds tuple member
    rw [rowOfGroup, run]
  have listed : ∀ tuple ∈ tuples (groupPaths groupBy fields) rows,
      tuple ∈ groupTuples fields groupBy rows := by
    intro tuple member
    have some_row : rows.isEmpty = false := by
      rw [← tuples_isEmpty (groupPaths groupBy fields) rows, List.isEmpty_eq_false_iff]
      exact List.ne_nil_of_mem member
    rwa [groupTuples, some_row, Bool.false_and, if_neg Bool.false_ne_true]
  have values : ∀ r ∈ rows, ∀ v ∈ tupleOf (groupPaths groupBy fields) r, v.WithoutDoubles := by
    intro r member v here
    obtain ⟨path, among, rfl⟩ := List.mem_map.mp here
    exact plain r member path among
  have grouped := groupInto_rows rows [] values fun tuple member =>
    gathers_of_addGroupFields (made tuple (listed tuple member))
  refine ⟨fun tuple => rowOfGroup ambient selectAll fields
    (members (groupPaths groupBy fields) rows tuple), ?_, fun tuple member =>
      isGroupRow names (made tuple member)⟩
  change (groupInto fields (groupPaths groupBy fields) [] (rows.map .ok) >>= _) = _
  rw [show groupInto fields (groupPaths groupBy fields) [] (rows.map .ok) = _ from grouped]
  change collect (List.map _ (if _ then _ else _)) = _
  rw [List.nil_append, buckets_eq]
  refine collect_ok ?_
  rw [List.map_map, List.map_map]
  refine List.map_congr_left fun tuple member => ?_
  exact (Bucket.row_ofGroup ambient selectAll
    (gathers_of_addGroupFields (made tuple member))).trans (made tuple member)

/-- Rows without a group, with a group of the name null, and again without one. -/
def nullRows : List Record :=
  [⟨[("g", .null), ("n", .int 1)]⟩, ⟨[("g", .text "null"), ("n", .int 2)]⟩,
    ⟨[("g", .null), ("n", .null)]⟩]

/-- The group under the alias `k`, and the number of values. -/
def nullFields : List SelectedField :=
  [⟨"k", .path ⟨"g", [.key "g"]⟩, true⟩, ⟨"c", .call ⟨.count, [.field ⟨"n", [.key "n"]⟩]⟩, true⟩]

theorem aggregate_rows_nulls :
    let ambient : Ambient := ⟨⟨0, 0, 0⟩, ""⟩
    ∃ rowOf : List Value → Record,
      aggregate ambient false nullFields [⟨"k", [.key "k"]⟩] (nullRows.map .ok) =
        .ok ((groupTuples nullFields [⟨"k", [.key "k"]⟩] nullRows).map rowOf) ∧
      ∀ tuple ∈ groupTuples nullFields [⟨"k", [.key "k"]⟩] nullRows,
        IsGroupRow ambient false nullFields
          (members (groupPaths [⟨"k", [.key "k"]⟩] nullFields) nullRows tuple) (rowOf tuple) := by
  intro ambient
  have paths : groupPaths [⟨"k", [.key "k"]⟩] nullFields = [⟨"g", [.key "g"]⟩] := by decide
  have listed : groupTuples nullFields [⟨"k", [.key "k"]⟩] nullRows =
      [[.null], [.text "null"]] := by decide
  refine aggregate_rows (by decide) ?_ ?_
  · rw [paths]
    intro r member path among
    cases List.mem_singleton.mp among
    simp only [nullRows, List.mem_cons, List.not_mem_nil, or_false] at member
    rcases member with rfl | rfl | rfl
    · exact .null
    · exact .text _
    · exact .null
  · rw [listed, paths]
    intro tuple member
    simp only [List.mem_cons, List.not_mem_nil, or_false] at member
    rcases member with rfl | rfl
    · exact ⟨_, rfl⟩
    · exact ⟨_, rfl⟩

end Rows

end RecordQuery
