import RecordQuery.Proofs.Canonical.Argument
import RecordQuery.Proofs.Canonical.Query
import RecordQuery.Proofs.FieldPath.Comma

namespace RecordQuery

open Condition (testsOf)
open Token (IsWord)

/-- The literal values that an operand is written with. -/
def Value.literals : Value → List Value
  | .array items => items
  | v => [v]

/-- A predicate with plain values in its operand. -/
def Predicate.IsPlain (p : Predicate) : Prop :=
  ∀ v ∈ p.operand.literals, v.IsPlain

/-- A locator with a notation that is one token, which it is read back from. -/
structure Locator.IsPlain (l : Locator) : Prop where
  word : Token.IsLocator l.displayChars ∨ IsWord l.displayChars
  read : Locator.ofText l.display = l

def Expression.IsPlain : Expression → Prop
  | .path _ => True
  | .call c => c.toArgument.IsPlain

/-- A field with plain values in it, and with a word for its alias if it has one. -/
structure SelectedField.IsPlain (f : SelectedField) : Prop where
  expression : f.expression.IsPlain
  word : f.isAlias = true → IsWord f.name.toList

namespace Query

/-- A query with plain fields, conditions and a plain locator, apart from its joins. -/
structure ClausesPlain (q : Query) : Prop where
  fields : ∀ f ∈ q.fields, f.IsPlain
  locator : ∀ l ∈ q.locator, l.IsPlain
  filter : ∀ p ∈ testsOf q.filter.children, p.IsPlain
  having : ∀ p ∈ testsOf q.having.children, p.IsPlain

/-- A query whose aliases are words, whose locators are read back from their notation and whose
doubles are, too. -/
inductive IsPlain : Query → Prop
  | mk {q : Query} : q.ClausesPlain →
      (∀ j ∈ q.joins, ∀ name ∈ j.terms.aliasName, IsWord name.toList) →
      (∀ j ∈ q.joins, IsPlain j.right) → IsPlain q

end Query

/-- What holds of a predicate in the draft of a text. -/
def Predicate.IsSound (p : Predicate) : Prop :=
  p.IsPlain → p.IsWritten

/-- What holds of a call in the draft of a text. -/
def Call.IsSound (c : Call) : Prop :=
  c.toArgument.IsPlain → c.IsWritten

/-- What holds of a right query in the draft of a text. -/
def Query.IsSound (q : Query) : Prop :=
  q.IsPlain → q.IsWritten

namespace OpenGroup

/-- What holds of open parentheses in the draft of a text. -/
structure IsSound (grouping : Bool) (g : OpenGroup) : Prop where
  settled : g.IsSettled grouping
  tests : ∀ p ∈ testsOf g.settle.settled, p.IsSound

variable {g : OpenGroup} {grouping : Bool}

theorem isSound_empty (connective : Connective) : (empty connective).IsSound grouping :=
  ⟨isSettled_empty connective, nofun⟩

theorem IsSound.add (sound : g.IsSound grouping) (connective : Connective) {c : Condition}
    (settled : c.IsSettled grouping) (tests : ∀ p ∈ c.tests, p.IsSound) :
    (g.add grouping connective c).IsSound grouping :=
  ⟨sound.settled.add connective settled, fun p member =>
    (mem_testsOf_settle_add.mp member).elim (sound.tests p) (tests p)⟩

end OpenGroup

/-- What holds of the conditions of a clause in a query that a text stands for. -/
def ConditionTree.IsSound (grouping : Bool) (tree : ConditionTree) : Prop :=
  (∀ p ∈ testsOf tree.children, p.IsPlain) → tree.IsWritten grouping

namespace ConditionDraft

/-- What holds of the conditions of a clause in the draft of a text. -/
structure IsSound (grouping : Bool) (d : ConditionDraft) : Prop where
  same : d.grouping = grouping
  inner : d.inner.IsSound grouping
  outer : ∀ g ∈ d.outer, g.IsSound grouping

variable {d d' : ConditionDraft} {grouping : Bool}

theorem isSound_empty (grouping : Bool) : (empty grouping).IsSound grouping :=
  ⟨rfl, OpenGroup.isSound_empty .and, nofun⟩

theorem IsSound.add (sound : d.IsSound grouping) (connective : Connective) {c : Condition}
    (settled : c.IsSettled grouping) (tests : ∀ p ∈ c.tests, p.IsSound) :
    (d.add connective c).IsSound grouping := by
  obtain ⟨rfl, inner, outer⟩ := sound
  exact ⟨rfl, inner.add connective settled tests, outer⟩

theorem IsSound.openGroup (sound : d.IsSound grouping) (connective : Connective) :
    (d.openGroup connective).IsSound grouping :=
  ⟨sound.same, OpenGroup.isSound_empty connective,
    List.forall_mem_cons.mpr ⟨sound.inner, sound.outer⟩⟩

theorem IsSound.closeGroup (sound : d.IsSound grouping) (closed : d.closeGroup = .ok d') :
    d'.IsSound grouping := by
  obtain ⟨same, inner, outer⟩ := sound
  unfold ConditionDraft.closeGroup at closed
  split at closed
  · cases closed
  · rename_i around rest found
    rw [found] at outer
    obtain ⟨first, later⟩ := List.forall_mem_cons.mp outer
    have left : IsSound grouping { d with inner := around, outer := rest } := ⟨same, first, later⟩
    cases closed
    split
    · exact left
    · rename_i some
      refine left.add _ (inner.settled.close (by simpa using some)) fun p member => ?_
      rw [Condition.tests, OpenGroup.testsOf_close] at member
      exact inner.tests p member

/-- The conditions of a clause are read back from their notation as long as they are plain. -/
theorem IsSound.tree (sound : d.IsSound grouping) {t : ConditionTree}
    (finished : d.tree = .ok t) : t.IsSound grouping := by
  intro plain
  unfold ConditionDraft.tree at finished
  split at finished
  · cases finished
    refine ⟨fun nonempty => sound.inner.settled.close nonempty, fun p member => ?_⟩
    have inside := member
    rw [OpenGroup.testsOf_close] at inside
    exact sound.inner.tests p inside (plain p member)
  · cases finished

end ConditionDraft

/-- What holds of a selected field in the draft of a text. -/
structure SelectedField.IsSound (f : SelectedField) : Prop where
  expression : f.expression.IsPlain → f.expression.IsWritten
  own : f.isAlias = false → f.name = f.expression.display

/-- What holds of a join in the draft of a text. -/
structure JoinWith.IsSound (j : Join) : Prop where
  leftKey : j.terms.leftKey.IsWritten
  rightKey : j.terms.rightKey.IsWritten
  right : j.right.IsSound

/-- What holds of the conditions in the draft of a text. -/
def Draft.ConditionsSound (grouping : Bool) (d : Draft) : Prop :=
  ∀ c, (d.conditionsOf c).IsSound grouping

/-- What holds of the draft of a text: all that is plain in it is read back from its notation. -/
structure Draft.IsSound (d : Draft) : Prop where
  settings : d.settings = .default
  fields : ∀ f ∈ d.fields, f.IsSound
  apart : d.fields.Pairwise SelectedField.Precedes
  locator : ∀ l ∈ d.locator, l.isAll = false
  joins : ∀ j ∈ d.joins, j.IsSound
  pending : ∀ p ∈ d.pending, p.right.IsSound
  conditions : d.ConditionsSound true
  groupBy : ∀ p ∈ d.groupBy, p.StandsAlone
  orderBy : ∀ key ∈ d.orderBy, key.field.IsWritten
  limit : ∀ n ∈ d.limit, n ≤ countLimit
  offset : ∀ n ∈ d.offset, n ≤ countLimit

namespace Draft

variable {d d' : Draft}

theorem conditionsSound_empty (settings : QuerySettings) :
    (empty settings).ConditionsSound settings.grouping := by
  intro c
  cases c <;> exact ConditionDraft.isSound_empty settings.grouping

theorem isSound_empty : (empty .default).IsSound where
  settings := rfl
  fields := nofun
  apart := .nil
  locator := nofun
  joins := nofun
  pending := nofun
  conditions := conditionsSound_empty .default
  groupBy := nofun
  orderBy := nofun
  limit := nofun
  offset := nofun

section

variable {grouping : Bool} (sound : d.ConditionsSound grouping)
include sound

theorem ConditionsSound.mapConditions {f : ConditionDraft → ConditionDraft}
    (keeps : ∀ c : ConditionDraft, c.IsSound grouping → (f c).IsSound grouping) :
    (d.mapConditions f).ConditionsSound grouping := by
  intro c
  by_cases own : c = d.clause
  · rw [own, d.conditionsOf_mapConditions f]
    exact keeps _ (sound d.clause)
  · rw [(d.writes_mapConditions f).others c own]
    exact sound c

theorem ConditionsSound.openGroup (connective : Connective) :
    (d.openGroup connective).ConditionsSound grouping :=
  sound.mapConditions fun _ conditions => conditions.openGroup connective

theorem ConditionsSound.addTest {connective : Connective} {p : Predicate} (test : p.IsSound)
    (added : d.addTest connective p = .ok d') : d'.ConditionsSound grouping := by
  rw [addTest_ok added]
  refine sound.mapConditions fun c conditions => conditions.add connective trivial ?_
  rw [Condition.tests]
  exact List.forall_mem_singleton.mpr test

theorem ConditionsSound.closeGroup (closed : d.closeGroup = .ok d') :
    d'.ConditionsSound grouping := by
  obtain ⟨c, inner, rfl⟩ := closeGroup_ok closed
  have own := sound d.clause
  rw [← conditions_eq] at own
  exact sound.mapConditions fun _ _ => own.closeGroup inner

end

/-- Only the conditions that are written change. -/
theorem IsSound.mapConditions (sound : d.IsSound) {f : ConditionDraft → ConditionDraft}
    (conditions : (d.mapConditions f).ConditionsSound true) : (d.mapConditions f).IsSound := by
  unfold Draft.mapConditions at conditions ⊢
  cases clause : d.clause <;>
    rw [clause] at conditions <;>
    exact { sound with conditions }

end Draft

end RecordQuery
