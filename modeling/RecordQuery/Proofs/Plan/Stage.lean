import RecordQuery.Proofs.Except
import RecordQuery.Proofs.Rows.Collect
import RecordQuery.Query.Execution

namespace RecordQuery

namespace Rows

theorem unseen_subset (seen : Std.HashSet String) (items : List Item) :
    unseen seen items ⊆ items := by
  induction items generalizing seen with
  | nil => exact List.Subset.refl _
  | cons item rest ih =>
    cases item with
    | error e => exact List.cons_subset_cons _ (ih seen)
    | ok r =>
      rw [unseen]
      split
      · exact List.subset_cons_of_subset _ (ih seen)
      · exact List.cons_subset_cons _ (ih _)

theorem distinct_subset (items : List Item) : distinct items ⊆ items :=
  unseen_subset ∅ items

theorem page_subset (skip : Nat) (limit : Option Nat) (items : List Item) :
    page skip limit items ⊆ items := by
  induction items generalizing skip limit with
  | nil => exact List.Subset.refl _
  | cons item rest ih =>
    unfold page
    split
    · exact List.nil_subset _
    split
    · exact List.cons_subset_cons _ (ih _ _)
    · exact List.subset_cons_of_subset _ (ih _ _)
    · exact List.cons_subset_cons _ (ih _ _)

end Rows

namespace Plan

/-- What a stage makes of the items that it is given, and whether it holds all of them in memory. -/
structure IsStage (stage : Plan → Plan) (work : Ambient → List Item → List Item) (holds : Bool) :
    Prop where
  run : ∀ input ambient source,
    (stage input).run ambient source = (input.run ambient source).map (work ambient)
  materializes : ∀ input, (stage input).materializes = (holds || input.materializes)

theorem isStage_filter (conditions : ConditionTree) :
    IsStage (.filter · conditions) (fun _ => Rows.filter .lenient conditions) false :=
  ⟨fun _ _ _ => rfl, fun _ => rfl⟩

/-- The stage that makes the output rows. -/
theorem isStage_select (grouped selectAll : Bool) (fields : List SelectedField)
    (groupBy : List FieldPath) :
    IsStage (if grouped then (.aggregate · selectAll fields groupBy)
        else (.project · selectAll fields))
      (fun ambient items =>
        if grouped then Rows.ofAll (Rows.aggregate ambient selectAll fields groupBy items)
        else Rows.mapRows (Rows.projectRow ambient selectAll fields) items) false := by
  cases grouped <;> exact ⟨fun _ _ _ => rfl, fun _ => rfl⟩

theorem isStage_having (conditions : ConditionTree) :
    IsStage (.having · conditions) (fun _ => Rows.filter .strict conditions) false :=
  ⟨fun _ _ _ => rfl, fun _ => rfl⟩

theorem isStage_distinct : IsStage .distinct (fun _ => Rows.distinct) false :=
  ⟨fun _ _ _ => rfl, fun _ => rfl⟩

theorem isStage_sort (keys : List OrderKey) (seed : Option Nat) :
    IsStage (.sort · keys seed) (fun ambient items =>
      Rows.ofAll (Rows.sort (ambient.draws.shuffle seed) keys items)) true :=
  ⟨fun _ _ _ => rfl, fun _ => rfl⟩

theorem isStage_paginate (offset : Nat) (limit : Option Nat) :
    IsStage (.paginate · offset limit) (fun _ => Rows.page offset limit) false :=
  ⟨fun _ _ _ => rfl, fun _ => rfl⟩

variable {f : Plan → Plan} {work : Ambient → List Item → List Item} {holds : Bool}

theorem IsStage.stageIf (isStage : IsStage f work holds) (present : Bool) :
    IsStage (stageIf present f) (if present then work else fun _ items => items)
      (present && holds) := by
  cases present with
  | true => exact isStage
  | false =>
    refine ⟨fun input ambient source => ?_, fun input => rfl⟩
    change input.run ambient source = (input.run ambient source).map id
    cases input.run ambient source <;> rfl

/-- A stage only runs where what it stands on does. -/
theorem IsStage.exists_given (isStage : IsStage f work holds) {input : Plan} {ambient : Ambient}
    {source : Source} {items : List Item} (ran : (f input).run ambient source = .ok items) :
    ∃ given, input.run ambient source = .ok given ∧ items = work ambient given := by
  rw [isStage.run] at ran
  obtain ⟨given, inner, rfl⟩ := exists_of_map_ok ran
  exact ⟨given, inner, rfl⟩

end Plan

namespace Query

/-- All rows that a query gives, or what goes wrong on the way. -/
def fetch (q : Query) (ambient : Ambient) (source : Source) : Except QueryError (List Record) := do
  let results ← q.execute ambient source
  results.fetchAll none

/-- Rows that are held in memory are all read before and not when they are asked for. For somebody
who asks for all of them that is the same. -/
theorem fetch_eq (q : Query) (ambient : Ambient) (source : Source) :
    q.fetch ambient source = ((Plan.ofQuery q).run ambient source).bind Rows.collect := by
  simp only [fetch, execute]
  cases (Plan.ofQuery q).run ambient source with
  | error e => rfl
  | ok items =>
    cases (Plan.ofQuery q).materializes with
    | false => rfl
    | true =>
      change (Rows.collect items >>= _) >>= _ = Rows.collect items
      cases Rows.collect items <;> rfl

theorem run_of_fetch {q : Query} {ambient : Ambient} {source : Source} {rows : List Record}
    (fetched : q.fetch ambient source = .ok rows) :
    (Plan.ofQuery q).run ambient source = .ok (rows.map .ok) := by
  rw [fetch_eq] at fetched
  obtain ⟨items, ran, collected⟩ := exists_of_bind_ok fetched
  rw [ran, Rows.eq_of_collect collected]

/-- The items of a result are those of the plan, whether they are held in memory or not. -/
theorem run_of_execute {q : Query} {ambient : Ambient} {source : Source} {results : Results}
    (executed : q.execute ambient source = .ok results) :
    (Plan.ofQuery q).run ambient source = .ok results.items := by
  obtain ⟨items, ran, executed⟩ := exists_of_bind_ok executed
  rw [ran]
  split at executed
  · obtain ⟨rows, collected, executed⟩ := exists_of_bind_ok executed
    cases executed
    exact congrArg Except.ok (Rows.eq_of_collect collected)
  · cases executed
    rfl

end Query

end RecordQuery
