import RecordQuery.Proofs.Draft.Names
import RecordQuery.Proofs.Grouping.Bucket
import RecordQuery.Proofs.Ordering.Stable
import RecordQuery.Proofs.Plan.Stage
import RecordQuery.Proofs.Record.Keys

namespace RecordQuery

section

variable {ambient : Ambient} {raw row out : Record} {fields : List SelectedField}

/-- Fields with new keys are added at the end, in their order. -/
theorem Rows.keys_addFields (apart : (row.keys ++ fields.map SelectedField.name).Nodup)
    (added : addFields ambient raw fields row = .ok out) :
    out.keys = row.keys ++ fields.map SelectedField.name := by
  induction fields generalizing row with
  | nil =>
    cases added
    exact (List.append_nil _).symm
  | cons f rest ih =>
    rw [addFields] at added
    split at added
    · cases added
    · obtain ⟨later, same⟩ := Record.keys_insert_next apart _
      exact (ih later added).trans same

/-- The same holds of the fields of a group, whether they are aggregates or not. -/
theorem Bucket.keys_addFields {gathered : List (Option Accumulator)}
    (length : gathered.length = fields.length)
    (apart : (row.keys ++ fields.map SelectedField.name).Nodup)
    (added : addFields ambient raw fields gathered row = .ok out) :
    out.keys = row.keys ++ fields.map SelectedField.name := by
  induction fields generalizing row gathered with
  | nil =>
    obtain rfl := List.eq_nil_of_length_eq_zero length
    cases added
    exact (List.append_nil _).symm
  | cons f rest ih =>
    obtain ⟨a, others, rfl⟩ := List.exists_cons_of_length_eq_add_one length
    have shorter : others.length = rest.length := Nat.succ.inj length
    cases a with
    | some a =>
      obtain ⟨later, same⟩ := Record.keys_insert_next apart a.result
      exact (ih shorter later added).trans same
    | none =>
      rw [addFields] at added
      split at added
      · cases added
      · obtain ⟨later, same⟩ := Record.keys_insert_next apart _
        exact (ih shorter later added).trans same

end

namespace Rows

theorem exists_of_mem_ofAll {all : Except QueryError (List Record)} {r : Record}
    (member : .ok r ∈ ofAll all) : ∃ rows, all = .ok rows ∧ r ∈ rows := by
  cases all with
  | error e => cases List.mem_singleton.mp member
  | ok rows =>
    obtain ⟨s, inside, same⟩ := List.mem_map.mp member
    exact ⟨rows, rfl, Except.ok.inj same ▸ inside⟩

/-- Whether the rows among items have just these keys, in this order. -/
def HaveKeys (names : List String) (items : List Item) : Prop :=
  ∀ r, .ok r ∈ items → r.keys = names

section

variable {ambient : Ambient} {fields : List SelectedField}
  (apart : (fields.map SelectedField.name).Nodup)
include apart

theorem haveKeys_project (items : List Item) :
    HaveKeys (fields.map SelectedField.name) (mapRows (projectRow ambient false fields) items) := by
  intro r member
  obtain ⟨item, -, made⟩ := List.mem_map.mp member
  cases item with
  | error e => cases made
  | ok raw =>
    have fresh : (Record.empty.keys ++ fields.map SelectedField.name).Nodup := apart
    exact keys_addFields fresh made

theorem haveKeys_aggregate (groupBy : List FieldPath) (items : List Item) :
    HaveKeys (fields.map SelectedField.name)
      (ofAll (aggregate ambient false fields groupBy items)) := by
  intro r member
  obtain ⟨rows, made, inside⟩ := exists_of_mem_ofAll member
  obtain ⟨groups, grouped, made⟩ := exists_of_bind_ok made
  have fits := fits_buckets grouped groupBy
  dsimp only at made
  generalize (if groups.isEmpty && groupBy.isEmpty then [Bucket.start fields .empty]
    else groups.map Prod.snd) = buckets at *
  have whole : Except.ok r ∈ buckets.map fun b => b.row ambient false fields := by
    rw [eq_of_collect made]
    exact List.mem_map_of_mem inside
  obtain ⟨b, among, row⟩ := List.mem_map.mp whole
  have fresh : (Record.empty.keys ++ fields.map SelectedField.name).Nodup := apart
  exact Bucket.keys_addFields (fits b among).length fresh row

end

/-- Whether a stage only gives rows that it is given. -/
def Passes (work : List Item → List Item) : Prop :=
  ∀ items r, .ok r ∈ work items → .ok r ∈ items

theorem passes_filter (mode : Strictness) (conditions : ConditionTree) :
    Passes (filter mode conditions) := by
  intro items r member
  obtain ⟨item, inside, kept⟩ := List.mem_filterMap.mp member
  cases item with
  | error e => cases kept
  | ok given =>
    dsimp only at kept
    split at kept
    · cases kept
      exact inside
    · cases kept
    · cases kept

theorem passes_distinct : Passes distinct :=
  fun items _ member => distinct_subset items member

theorem mem_of_keyedAll {keys : List OrderKey} {items : List Item}
    {rows : List (List Value × Record)} (keyed : keyedAll keys items = .ok rows) :
    ∀ row ∈ rows, .ok row.2 ∈ items := by
  induction items generalizing rows with
  | nil =>
    cases keyed
    exact List.forall_mem_nil _
  | cons item rest ih =>
    cases item with
    | error e => cases keyed
    | ok r =>
      rw [keyedAll] at keyed
      split at keyed
      · cases keyed
      rename_i first here
      obtain ⟨others, later, rfl⟩ := exists_of_map_ok keyed
      refine List.forall_mem_cons.mpr ⟨?_, fun row member => ?_⟩
      · obtain ⟨values, -, own⟩ := exists_of_bind_ok here
        cases own
        exact List.mem_cons_self ..
      · exact List.mem_cons_of_mem _ (ih later row member)

theorem passes_sort (shuffle : Shuffle) (keys : List OrderKey) :
    Passes fun items => ofAll (sort shuffle keys items) := by
  intro items r member
  obtain ⟨sorted, done, inside⟩ := exists_of_mem_ofAll member
  obtain ⟨rows, keyed, done⟩ := exists_of_bind_ok done
  cases done
  obtain ⟨row, among, rfl⟩ := List.mem_map.mp inside
  have before : row ∈ shuffled shuffle keys rows := (stableSort_perm _ _).mem_iff.mp among
  exact mem_of_keyedAll keyed row ((shuffled_perm shuffle keys rows).mem_iff.mp before)

theorem passes_page (skip : Nat) (limit : Option Nat) : Passes (page skip limit) :=
  fun items _ member => page_subset skip limit items member

end Rows

namespace Plan

variable {ambient : Ambient} {source : Source} {input : Plan} {items : List Item}

/-- A stage that only passes rows on may be left out. -/
theorem IsStage.exists_passed {stage : Plan → Plan} {work : Ambient → List Item → List Item}
    {holds present : Bool} (isStage : IsStage stage work holds)
    (passes : Rows.Passes (work ambient))
    (ran : (Plan.stageIf present stage input).run ambient source = .ok items) :
    ∃ given, input.run ambient source = .ok given ∧ ∀ r, .ok r ∈ items → .ok r ∈ given := by
  cases present with
  | false => exact ⟨items, ran, fun _ member => member⟩
  | true =>
    obtain ⟨given, inner, rfl⟩ := isStage.exists_given ran
    exact ⟨given, inner, passes given⟩

/-- The rows of a query that does not select everything have the keys of its fields. -/
theorem haveKeys_ofQuery {q : Query} (apart : q.names.Nodup) (named : q.selectAll = false)
    (ran : (ofQuery q).run ambient source = .ok items) : Rows.HaveKeys q.names items := by
  obtain ⟨selectAll, fields, distinct, locator, joins, before, after, groupBy, orderBy, limit,
    offset, settings⟩ := q
  cases named
  rw [ofQuery] at ran
  obtain ⟨sorted, ran, fromSorted⟩ := (isStage_paginate _ limit).exists_passed
    (Rows.passes_page _ limit) ran
  obtain ⟨once, ran, fromOnce⟩ := (isStage_sort orderBy settings.seed).exists_passed
    (Rows.passes_sort _ orderBy) ran
  obtain ⟨kept, ran, fromKept⟩ := isStage_distinct.exists_passed Rows.passes_distinct ran
  obtain ⟨selected, ran, fromSelected⟩ := (isStage_having after).exists_passed
    (Rows.passes_filter .strict after) ran
  obtain ⟨given, -, rfl⟩ := (isStage_select _ false fields groupBy).exists_given ran
  have keys : Rows.HaveKeys (fields.map SelectedField.name)
      (if !groupBy.isEmpty || fields.any SelectedField.isAggregate then
        Rows.ofAll (Rows.aggregate ambient false fields groupBy given)
      else Rows.mapRows (Rows.projectRow ambient false fields) given) := by
    split
    · exact Rows.haveKeys_aggregate apart groupBy given
    · exact Rows.haveKeys_project apart given
  exact fun r member => keys r (fromSelected r (fromKept r (fromOnce r (fromSorted r member))))

end Plan

namespace Draft

/-- Whatever calls and statements have made a query, no two of its fields have one key, and unless
it selects everything the rows that it gives have just these keys, in the order in which the fields
are selected. The same holds of the queries that it is joined to. -/
theorem keys_of_reached {d : Draft} {q part : Query} (reached : d.Reached)
    (built : d.build = .ok q) (inside : part.PartOf q) :
    part.names.Nodup ∧ (part.selectAll = false →
      ∀ ambient source results, part.execute ambient source = .ok results →
        ∀ r, .ok r ∈ results.items → r.keys = part.names) := by
  have own := reached.nodup_names built inside
  exact ⟨own, fun named ambient source results executed =>
    Plan.haveKeys_ofQuery own named (Query.run_of_execute executed)⟩

/-- A field with an alias that is grouped by, a second one that is selected by a call which is then
refused for the alias, and a count. -/
def groupedEdits : List Edit :=
  [.select "a", .setAlias "b", .select "c, b", .selectCount "*", .groupBy "b"]

theorem keys_of_reached_grouped :
    let d := (empty .default).editAll groupedEdits
    let ambient : Ambient := ⟨⟨0, 0, 0⟩, ""⟩
    let source : Source := ⟨"", fun _ => .ok [.ok ⟨[("a", .int 1)]⟩, .ok ⟨[("c", .int 2)]⟩]⟩
    ∃ q results first second, d.Reached ∧ d.build = .ok q ∧ q.PartOf q ∧ q.selectAll = false ∧
      q.execute ambient source = .ok results ∧ results.items = [.ok first, .ok second] ∧
      q.names.Nodup ∧ first.keys = q.names ∧ second.keys = q.names := by
  intro d ambient source
  have reached : d.Reached := reached_editAll (.empty .default) fun e member joined right => by
    simp only [groupedEdits, List.mem_cons, List.not_mem_nil, or_false] at member
    rcases member with rfl | rfl | rfl | rfl | rfl <;> cases right
  have found : (d.build.toOption.bind fun q => (q.execute ambient source).toOption.map fun results =>
      (q.selectAll, results.items.map fun item => item.toOption.isSome)) =
      some (false, [true, true]) := by
    decide +kernel
  generalize d = d at found reached
  cases built : d.build with
  | error fault =>
    rw [built] at found
    cases found
  | ok q =>
    rw [built] at found
    simp only [Except.toOption, Option.bind_some] at found
    cases executed : q.execute ambient source with
    | error e =>
      rw [executed] at found
      cases found
    | ok results =>
      rw [executed] at found
      simp only [Option.map_some, Option.some.injEq, Prod.mk.injEq] at found
      obtain ⟨named, shape⟩ := found
      obtain ⟨names, keys⟩ := keys_of_reached reached built (.self q)
      have all := keys named ambient source results executed
      obtain ⟨item, rest, items, first, others⟩ := List.map_eq_cons_iff.mp shape
      obtain ⟨other, rfl, second⟩ := List.map_eq_singleton_iff.mp others
      cases item with
      | error e => cases first
      | ok r =>
        cases other with
        | error e => cases second
        | ok s =>
          refine ⟨q, results, r, s, reached, rfl, .self q, named, executed, items, names, ?_, ?_⟩
          · exact all r (by rw [items]; exact List.mem_cons_self ..)
          · exact all s (by rw [items]; exact List.mem_cons_of_mem _ (List.mem_singleton_self _))

end Draft

end RecordQuery
