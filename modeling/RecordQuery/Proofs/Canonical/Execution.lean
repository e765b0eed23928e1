import RecordQuery.Proofs.Canonical.Query
import RecordQuery.Proofs.Plan.Stage

namespace RecordQuery

theorem ConditionTree.evaluate_fromAnd (tree : ConditionTree) (r : Record) (mode : Strictness) :
    tree.fromAnd.evaluate r mode = tree.evaluate r mode :=
  Condition.evaluate_fromAnd r mode (.group tree.children)

theorem Rows.filter_fromAnd (mode : Strictness) (conditions : ConditionTree) (items : List Item) :
    filter mode conditions.fromAnd items = filter mode conditions items := by
  simp only [filter, ConditionTree.evaluate_fromAnd]

namespace Plan

/-- Plans that give the same over every source, and that hold the same rows in memory. -/
structure Agrees (a b : Plan) : Prop where
  run : ∀ ambient source, a.run ambient source = b.run ambient source
  materializes : a.materializes = b.materializes

variable {f g : Plan → Plan} {work : Ambient → List Item → List Item} {holds : Bool}

namespace Agrees

variable {a b c d : Plan}

theorem refl (a : Plan) : a.Agrees a :=
  ⟨fun _ _ => rfl, rfl⟩

/-- Stages that make the same of their items can stand on top of plans that agree. -/
theorem stage (agrees : a.Agrees b) (first : IsStage f work holds) (second : IsStage g work holds) :
    (f a).Agrees (g b) where
  run ambient source := by rw [first.run, second.run, agrees.run]
  materializes := by rw [first.materializes, second.materializes, agrees.materializes]

theorem join (left : a.Agrees b) (right : c.Agrees d) (terms : JoinTerms) :
    (Plan.join a c terms).Agrees (.join b d terms) where
  run ambient source := by rw [Plan.run, Plan.run, left.run, right.run]
  materializes := rfl

end Agrees

end Plan

namespace Query

mutual

/-- Whether a query selects something, as well as the right queries of its joins. -/
def selects : Query → Bool
  | { selectAll, fields, joins, .. } => (selectAll || !fields.isEmpty) && joinsSelect joins

def joinsSelect : List (JoinWith Query) → Bool
  | [] => true
  | ⟨right, _⟩ :: rest => right.selects && joinsSelect rest

end

mutual

/-- The plan of what is read back from a canonical text agrees with that of the query, as long as
something is selected. -/
theorem agrees_reread (q : Query) (selecting : q.selects = true) :
    (Plan.ofQuery q.reread).Agrees (Plan.ofQuery q) := by
  match q with
  | { selectAll, fields, distinct, locator, joins, filter, having, groupBy, orderBy, limit, offset,
      settings } =>
    rw [selects, Bool.and_eq_true] at selecting
    obtain ⟨present, inside⟩ := selecting
    have all : (selectAll || fields.isEmpty) = selectAll := by
      cases selectAll <;> simp_all
    have lenient := Plan.isStage_filter filter
    have before : Plan.IsStage (.filter · filter.fromAnd)
        (fun _ => Rows.filter .lenient filter) false := by
      have same := Plan.isStage_filter filter.fromAnd
      rwa [funext (Rows.filter_fromAnd .lenient filter)] at same
    have after : Plan.IsStage (.having · having.fromAnd)
        (fun _ => Rows.filter .strict having) false := by
      have same := Plan.isStage_having having.fromAnd
      rwa [funext (Rows.filter_fromAnd .strict having)] at same
    have rows := (agrees_rereadJoins joins inside (.refl (.scan locator))).stage (before.stageIf _)
      (lenient.stageIf (!filter.isEmpty))
    have selected := rows.stage (Plan.isStage_select _ selectAll fields groupBy)
      (Plan.isStage_select (!groupBy.isEmpty || fields.any SelectedField.isAggregate) selectAll
        fields groupBy)
    have kept := selected.stage (after.stageIf _)
      ((Plan.isStage_having having).stageIf (!having.isEmpty))
    have once := kept.stage (Plan.isStage_distinct.stageIf distinct)
      (Plan.isStage_distinct.stageIf distinct)
    have orders := Plan.isStage_sort orderBy settings.seed
    have sorted := once.stage (orders.stageIf _) (orders.stageIf (!orderBy.isEmpty))
    have paged := sorted.stage ((Plan.isStage_paginate (offset.getD 0) limit).stageIf _)
      ((Plan.isStage_paginate (offset.getD 0) limit).stageIf (offset.isSome || limit.isSome))
    rw [reread, Plan.ofQuery, Plan.ofQuery, all, filter.isEmpty_fromAnd, having.isEmpty_fromAnd]
    exact paged

theorem agrees_rereadJoins (joins : List (JoinWith Query)) (selecting : joinsSelect joins = true)
    {a b : Plan} (agrees : a.Agrees b) :
    (Plan.ofJoins a (rereadJoins joins)).Agrees (Plan.ofJoins b joins) := by
  match joins with
  | [] => exact agrees
  | ⟨right, terms⟩ :: rest =>
    rw [joinsSelect, Bool.and_eq_true] at selecting
    rw [rereadJoins, Plan.ofJoins, Plan.ofJoins]
    exact agrees_rereadJoins rest selecting.2 (agrees.join (agrees_reread right selecting.1) terms)

end

/-- What is read back from a canonical text gives the same as the query, as long as something is
selected. -/
theorem execute_reread {q : Query} (selecting : q.selects = true) (ambient : Ambient)
    (source : Source) : q.reread.execute ambient source = q.execute ambient source := by
  have agrees := agrees_reread q selecting
  simp only [execute, agrees.run, agrees.materializes]

end Query

end RecordQuery
