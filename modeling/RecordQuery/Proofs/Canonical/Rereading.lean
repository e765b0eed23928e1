import RecordQuery.Proofs.Canonical.Execution
import RecordQuery.Proofs.Canonical.Origin

namespace RecordQuery

open Condition (testsOf)

/-- What holds of a query that a text stands for, with any settings: its conditions and those of
the queries that it is joined to are read back as long as they are plain. -/
def Query.PartsSound (grouping : Bool) (q : Query) : Prop :=
  ∀ part : Query, part.PartOf q → ∀ c, (part.conditions c).IsSound grouping

/-- What holds of a draft of a text with any settings. -/
structure Draft.PartsSound (settings : QuerySettings) (d : Draft) : Prop where
  same : d.settings = settings
  conditions : d.ConditionsSound settings.grouping
  joins : ∀ j ∈ d.joins, j.right.PartsSound settings.grouping

namespace Draft

variable {d d' : Draft} {settings : QuerySettings}

theorem partsSound_empty (settings : QuerySettings) : (empty settings).PartsSound settings :=
  ⟨rfl, conditionsSound_empty settings, List.forall_mem_nil _⟩

section

variable (sound : d.PartsSound settings)
include sound

theorem PartsSound.keeps (keeps : d.Keeps d') : d'.PartsSound settings where
  same := keeps.settings.trans sound.same
  conditions c := by
    rw [keeps.conditions c]
    exact sound.conditions c
  joins := by
    rw [keeps.joins]
    exact sound.joins

theorem PartsSound.writes (writes : d.Writes d')
    (conditions : d'.ConditionsSound settings.grouping) : d'.PartsSound settings where
  same := writes.settings.trans sound.same
  conditions
  joins := by
    rw [writes.joins]
    exact sound.joins

theorem PartsSound.joinedTo {q : Query} (right : q.PartsSound settings.grouping)
    (joined : d.JoinedTo q d') : d'.PartsSound settings where
  same := joined.settings.trans sound.same
  conditions c := by
    rw [joined.conditions c]
    exact sound.conditions c
  joins j member := by
    obtain ⟨terms, all⟩ := joined.joins
    rw [all] at member
    rcases List.mem_append.mp member with earlier | last
    · exact sound.joins j earlier
    · rw [List.mem_singleton.mp last]
      exact right

theorem PartsSound.build {q : Query} (built : d.build = .ok q) :
    q.PartsSound settings.grouping := by
  obtain ⟨trees, joins⟩ := build_ok built
  intro part inside c
  cases inside with
  | self => exact (sound.conditions c).tree (trees c)
  | right member deeper =>
    rw [joins] at member
    exact sound.joins _ member part deeper c

end

end Draft

namespace NestedDraft

/-- What holds of all drafts of a text with any settings. -/
structure PartsSound (settings : QuerySettings) (n : NestedDraft) : Prop where
  inner : n.inner.PartsSound settings
  around : ∀ d ∈ n.around, d.PartsSound settings

/-- The conditions stay sound whatever a text leads to. -/
theorem isKept_partsSound (settings : QuerySettings) : IsKept (PartsSound settings) := by
  intro n m s ⟨inner, around⟩ step takes
  have writes (condition : s.isCondition)
      (conditions : m.inner.ConditionsSound settings.grouping) : m.PartsSound settings := by
    obtain ⟨writes, same⟩ := writes_take condition takes
    exact ⟨inner.writes writes conditions, same ▸ around⟩
  cases s with
  | openGroup connective =>
    refine writes rfl ?_
    cases takes
    exact inner.conditions.openGroup connective
  | closeGroup =>
    refine writes rfl ?_
    obtain ⟨d, closed, rfl⟩ := tryInner_ok (f := Draft.closeGroup) takes
    exact inner.conditions.closeGroup closed
  | test connective p =>
    refine writes rfl ?_
    obtain ⟨d, added, rfl⟩ := tryInner_ok (f := fun d => d.addTest connective p) takes
    exact inner.conditions.addTest step added
  | clause c =>
    cases takes
    exact ⟨inner.keeps ⟨fun c => by cases c <;> rfl, rfl, rfl⟩, around⟩
  | beginRight =>
    cases takes
    refine ⟨?_, List.forall_mem_cons.mpr ⟨inner, around⟩⟩
    rw [inner.same]
    exact Draft.partsSound_empty settings
  | join kind aliasName left operator right =>
    cases nested : n.around with
    | nil =>
      unfold NestedDraft.take at takes
      simp only [nested] at takes
      cases takes
      exact ⟨inner, around⟩
    | cons d rest =>
      obtain ⟨q, built, joined, same⟩ := joinedTo_take nested takes
      rw [nested] at around
      obtain ⟨first, later⟩ := List.forall_mem_cons.mp around
      exact ⟨first.joinedTo (inner.build built) joined, same ▸ later⟩
  | _ =>
    obtain ⟨keeps, same⟩ := keeps_take rfl takes
    exact ⟨inner.keeps keeps, same ▸ around⟩

end NestedDraft

theorem Query.partsSound_of_ofText {settings : QuerySettings} {text : String} {q : Query}
    (accepted : ofText settings text = .ok q) : q.PartsSound settings.grouping := by
  obtain ⟨n, sound, built⟩ := (NestedDraft.isKept_partsSound settings).exists_of_ofText accepted
    ⟨Draft.partsSound_empty settings, List.forall_mem_nil _⟩
  exact (NestedDraft.outermost_of_forall sound.inner sound.around).build built

namespace Draft

/-- A draft without a pending join and without open parentheses makes a query with the conditions
of the draft. -/
theorem exists_build {d : Draft} (settled : d.pending = none)
    {trees : ConditionClause → ConditionTree}
    (found : ∀ c, (d.conditionsOf c).tree = .ok (trees c)) :
    ∃ q, d.build = .ok q ∧ ∀ c, q.conditions c = trees c := by
  have filter : d.filter.tree = .ok (trees .filter) := found .filter
  have having : d.having.tree = .ok (trees .having) := found .having
  unfold build
  rw [settled, filter, having]
  refine ⟨_, rfl, fun c => ?_⟩
  cases c <;> rfl

/-- Conditions that need no other parentheses than they have become those of a clause when they are
added to it in an empty draft. -/
theorem exists_build_addAll {settings : QuerySettings} {tree : ConditionTree}
    (uniform : tree.children ≠ [] → Condition.IsUniform settings.grouping tree.children)
    (c : ConditionClause) :
    ∃ q, (((empty settings).setClause c).mapConditions fun conditions =>
        conditions.addAll tree.children).build = .ok q ∧ q.conditions c = tree := by
  let d := (empty settings).setClause c
  let add (conditions : ConditionDraft) : ConditionDraft := conditions.addAll tree.children
  have unwritten (b : ConditionClause) : d.conditionsOf b = .empty settings.grouping := by
    cases b <;> rfl
  have found (b : ConditionClause) :
      ((d.mapConditions add).conditionsOf b).tree = .ok (if b = d.clause then tree else ⟨[]⟩) := by
    by_cases same : b = d.clause
    · rw [same, conditionsOf_mapConditions, unwritten, if_pos rfl]
      exact ConditionDraft.tree_addAll_of_isUniform uniform
    · rw [(d.writes_mapConditions add).others b same, unwritten, if_neg same]
      rfl
  obtain ⟨q, built, conditions⟩ :=
    exists_build (Statement.Reader.pending_mapConditions d add) found
  exact ⟨q, built, (conditions c).trans (if_pos rfl)⟩

end Draft

/-- Conditions are read back from their text behind the word of either clause. -/
theorem ConditionTree.IsWritten.exists_ofText {settings : QuerySettings} {tree : ConditionTree}
    (written : tree.IsWritten settings.grouping) (nonempty : tree.children ≠ [])
    (c : ConditionClause) :
    ∃ q, Query.ofText settings (c.clause.name ++ " " ++ tree.display) = .ok q ∧
      q.conditions c = tree.fromAnd := by
  have ends := (Statement.Spot.endsBefore_start settings).mono (Nat.zero_le c.clause.place)
  have unwritten : ((Draft.empty settings).setClause c).conditions = .empty settings.grouping := by
    cases c <;> rfl
  have leads := Statement.Spot.leads_conditions ends unwritten rfl written nonempty
  obtain ⟨q, built, same⟩ := Draft.exists_build_addAll written.isUniform_fromAnd c
  refine ⟨q, ?_, same⟩
  have chars : c.clause.name ++ " " ++ tree.display = String.ofList
      (c.clause.name.toList ++ ' ' :: Condition.displayChildren tree.children) := by
    apply String.toList_injective
    simp [ConditionTree.display]
  rw [chars]
  exact leads.ofText rfl built

namespace Query

/-- The conditions of an accepted text are read back from their own text behind the word of either
clause, with the same settings, as long as no doubles are compared in them. Only the connectives of
first conditions, which mean nothing, become AND. So what is read back has the same text, and it
evaluates alike on every record. -/
theorem exists_ofText_conditions {settings : QuerySettings} {text : String} {q part : Query}
    {c : ConditionClause} (accepted : ofText settings text = .ok q) (inside : part.PartOf q)
    (nonempty : (part.conditions c).isEmpty = false)
    (noDoubles : ∀ p ∈ testsOf (part.conditions c).children, ∀ v ∈ p.operand.literals,
      ∀ x, v ≠ .float x) (b : ConditionClause) :
    ∃ again, ofText settings (b.clause.name ++ " " ++ (part.conditions c).display) = .ok again ∧
      again.conditions b = (part.conditions c).fromAnd ∧
      (again.conditions b).display = (part.conditions c).display ∧
      ∀ r mode, (again.conditions b).evaluate r mode = (part.conditions c).evaluate r mode := by
  have plain : ∀ p ∈ testsOf (part.conditions c).children, p.IsPlain := by
    intro p member v literal
    cases v with
    | float x => exact absurd rfl (noDoubles p member _ literal x)
    | _ => trivial
  have written := partsSound_of_ofText accepted part inside c plain
  have present : (part.conditions c).children ≠ [] := List.isEmpty_eq_false_iff.mp nonempty
  obtain ⟨again, reread, same⟩ := written.exists_ofText present b
  refine ⟨again, reread, same, ?_, fun r mode => ?_⟩
  · rw [same]
    exact congrArg String.ofList (Condition.displayChildren_fromAndAll _)
  · rw [same]
    exact (part.conditions c).evaluate_fromAnd r mode

/-- Where AND binds no tighter, and behind the word of the other clause. -/
theorem exists_ofText_conditions_nested : ∃ q again,
    ofText ⟨false, none⟩ "WHERE (a = 1 OR (b IN (2, 3) AND c = 'x')) XOR d IS NULL" = .ok q ∧
      (q.conditions .filter).isEmpty = false ∧
      ofText ⟨false, none⟩ ("HAVING" ++ " " ++ (q.conditions .filter).display) = .ok again ∧
      again.conditions .having = (q.conditions .filter).fromAnd := by
  have parts : ((ofText ⟨false, none⟩
      "WHERE (a = 1 OR (b IN (2, 3) AND c = 'x')) XOR d IS NULL").toOption.map fun q =>
        ((q.conditions .filter).isEmpty,
          (((testsOf (q.conditions .filter).children).flatMap fun p =>
            p.operand.literals).map Value.typeName).contains "float")) = some (false, false) := by
    decide +kernel
  generalize "WHERE (a = 1 OR (b IN (2, 3) AND c = 'x')) XOR d IS NULL" = text at parts ⊢
  cases accepted : ofText ⟨false, none⟩ text with
  | error e =>
    rw [accepted] at parts
    cases parts
  | ok q =>
    rw [accepted] at parts
    simp only [Except.toOption, Option.map_some, Option.some.injEq, Prod.mk.injEq] at parts
    obtain ⟨nonempty, kinds⟩ := parts
    have noDoubles : ∀ p ∈ testsOf (q.conditions .filter).children, ∀ v ∈ p.operand.literals,
        ∀ x, v ≠ .float x := by
      rintro p member v literal x rfl
      have among : .float x ∈ (testsOf (q.conditions .filter).children).flatMap fun p =>
          p.operand.literals := List.mem_flatMap.mpr ⟨p, member, literal⟩
      have double := List.mem_map_of_mem (f := Value.typeName) among
      cases kinds.symm.trans (List.contains_iff_mem.mpr double)
    obtain ⟨again, reread, same, -⟩ :=
      exists_ofText_conditions accepted (.self q) nonempty noDoubles .having
    exact ⟨q, again, rfl, nonempty, reread, same⟩

end Query

end RecordQuery
