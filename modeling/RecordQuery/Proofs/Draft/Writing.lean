import Mathlib.Data.List.Forall2
import RecordQuery.Proofs.Condition.Links
import RecordQuery.Proofs.Draft.Reached
import RecordQuery.Proofs.Statement.Draft

namespace RecordQuery

/-- Whether a call is one of those that the conditions of WHERE are written with. -/
def Edit.isCondition : Edit → Bool
  | .setGrouping _ => true
  | .beginClause .filter .. => true
  | .condition .. => true
  | .openGroup _ => true
  | .closeGroup => true
  | _ => false

/-- An open pair of parentheses as it has been written: the connective in front of it, the
predicates in it in the order of the calls, and whether AND was to bind tighter in one of them. -/
structure WrittenGroup where
  connective : Connective
  links : List Link
  tight : Bool

/-- Conditions as they have been written. They stand in turn unless one is added, while AND is not
to bind tighter, to parentheses in which it was to do so before. -/
structure WrittenConditions where
  grouping : Bool
  inner : WrittenGroup
  outer : List WrittenGroup
  inTurn : Bool

namespace WrittenConditions

def empty (grouping : Bool) : WrittenConditions :=
  ⟨grouping, ⟨.and, [], false⟩, [], true⟩

def add (w : WrittenConditions) (links : List Link) : WrittenConditions :=
  { w with
    inner := { w.inner with
      links := w.inner.links ++ links
      tight := w.inner.tight || w.grouping }
    inTurn := w.inTurn && (w.grouping || !w.inner.tight) }

/-- Adds a predicate, unless there is no such field. -/
def addTest (w : WrittenConditions) (connective : Connective) (field : String)
    (operator : Operator) (operand : Value) : WrittenConditions :=
  match FieldPath.forQuery field with
  | .ok path => w.add [(connective, ⟨path, operator, operand⟩)]
  | .error _ => w

/-- Closes the innermost parentheses. The first predicate in them then stands behind the connective
in front of them. -/
def closeGroup (w : WrittenConditions) : WrittenConditions :=
  match w.outer with
  | [] => w
  | around :: outer =>
    let left : WrittenConditions := { w with inner := around, outer }
    if w.inner.links.isEmpty then left
    else left.add (Link.behind w.inner.connective w.inner.links)

/-- What a call writes. -/
def take (w : WrittenConditions) : Edit → WrittenConditions
  | .setGrouping grouping => { w with grouping }
  | .beginClause _ field operator operand => w.addTest .and field operator operand
  | .condition connective field operator operand => w.addTest connective field operator operand
  | .openGroup connective =>
    { w with inner := ⟨connective, [], false⟩, outer := w.inner :: w.outer }
  | .closeGroup => w.closeGroup
  | _ => w

def takeAll (w : WrittenConditions) (edits : List Edit) : WrittenConditions :=
  edits.foldl take w

/-- The predicates in the order of the calls, with AND in front of the first one. -/
def links (w : WrittenConditions) : List Link :=
  Link.behind .and w.inner.links

end WrittenConditions

namespace OpenGroup

open Condition Link

/-- Open parentheses hold the predicates that have been written in them and, as long as these stand
in turn, hold them in their order and behind their connectives. -/
structure ReadsAs (inTurn : Bool) (g : OpenGroup) (w : WrittenGroup) : Prop where
  connective : g.connective = w.connective
  tight : w.tight = !g.run.isEmpty
  filled : Filled g.content
  tests : (testsOf g.content).Perm (w.links.map Prod.snd)
  links : inTurn = true → linksOf g.content = w.links

theorem readsAs_empty (inTurn : Bool) (connective : Connective) :
    (empty connective).ReadsAs inTurn ⟨connective, [], false⟩ :=
  ⟨rfl, rfl, List.forall_mem_nil _, .refl _, fun _ => rfl⟩

/-- Where AND binds tighter, a condition is added behind all others, some of which may have been put
in parentheses of their own. -/
theorem exists_content_add (g : OpenGroup) (connective : Connective) (c : Condition) :
    ∃ front, (front = g.content ∨ front = g.settle.settled) ∧
      (g.add true connective c).content = front ++ [(connective, c)] ∧
      (g.add true connective c).run.isEmpty = false := by
  by_cases later : (!g.run.isEmpty && connective != .and) = true
  · refine ⟨g.settle.settled, .inr rfl, ?_⟩
    simp [add, later, content]
  · refine ⟨g.content, .inl rfl, ?_⟩
    simp [add, later, content]

section

variable {g : OpenGroup} {w : WrittenGroup} {inTurn : Bool}

theorem ReadsAs.mono (reads : g.ReadsAs inTurn w) {later : Bool}
    (earlier : later = true → inTurn = true) : g.ReadsAs later w :=
  { reads with links := fun still => reads.links (earlier still) }

section

variable (reads : g.ReadsAs inTurn w) {connective : Connective} {c : Condition} {links : List Link}
  (tested : c.tests ≠ []) (tests : c.tests.Perm (links.map Prod.snd))
  (same : inTurn = true → c.links connective = links)
include reads tested tests same

/-- Where AND does not bind tighter, a condition is put in front of those that may still become a
group, and it only stands in turn if there are none. -/
theorem ReadsAs.add_loose : (g.add false connective c).ReadsAs (inTurn && !w.tight)
    { w with links := w.links ++ links } := by
  have content : (g.add false connective c).content = g.settled ++ (connective, c) :: g.run := by
    simp [OpenGroup.add, OpenGroup.content]
  refine ⟨reads.connective, reads.tight, ?_, ?_, fun still => ?_⟩
  · rw [content]
    have filled := List.forall_mem_append.mp reads.filled
    exact List.forall_mem_append.mpr ⟨filled.1, List.forall_mem_cons.mpr ⟨tested, filled.2⟩⟩
  · -- The predicates of the run come behind the new one.
    rw [List.map_append]
    refine List.Perm.trans ?_ (reads.tests.append tests)
    rw [content, OpenGroup.content, testsOf_append, testsOf_append, testsOf, List.append_assoc]
    exact List.perm_append_comm.append_left _
  · rw [Bool.and_eq_true, reads.tight, Bool.not_not, List.isEmpty_iff] at still
    obtain ⟨still, noRun⟩ := still
    have before := reads.links still
    rw [OpenGroup.content, noRun, List.append_nil] at before
    rw [content, noRun, linksOf_append, before, linksOf, same still, linksOf, List.append_nil]

theorem ReadsAs.add_tight : (g.add true connective c).ReadsAs inTurn
    { w with links := w.links ++ links, tight := true } := by
  obtain ⟨front, which, content, run⟩ := g.exists_content_add connective c
  have kept : Filled front ∧ testsOf front = testsOf g.content ∧
      linksOf front = linksOf g.content := by
    rcases which with rfl | rfl
    · exact ⟨reads.filled, rfl, rfl⟩
    · refine ⟨filled_settle reads.filled, ?_, linksOf_settle reads.filled⟩
      rw [testsOf_settle, OpenGroup.content, testsOf_append]
  obtain ⟨filled, sameTests, sameLinks⟩ := kept
  refine ⟨(connective_add ..).trans reads.connective, ?_, ?_, ?_, fun still => ?_⟩
  · rw [run]
    rfl
  · rw [content]
    exact List.forall_mem_append.mpr ⟨filled, List.forall_mem_singleton.mpr tested⟩
  · rw [content, testsOf_append, sameTests, testsOf, testsOf, List.append_nil, List.map_append]
    exact reads.tests.append tests
  · rw [content, linksOf_append, sameLinks, reads.links still, linksOf, same still, linksOf,
      List.append_nil]

/-- Adding what reads as some links reads as adding the links. -/
theorem ReadsAs.add (grouping : Bool) :
    (g.add grouping connective c).ReadsAs (inTurn && (grouping || !w.tight))
      { w with links := w.links ++ links, tight := w.tight || grouping } := by
  cases grouping with
  | false =>
    rw [Bool.or_false]
    exact reads.add_loose tested tests same
  | true =>
    rw [Bool.true_or, Bool.and_true, Bool.or_true]
    exact reads.add_tight tested tests same

end

/-- Parentheses are empty if nothing has been written in them, and otherwise they are a condition
that reads as the links in them. -/
theorem ReadsAs.close (reads : g.ReadsAs inTurn w) :
    g.close.isEmpty = w.links.isEmpty ∧
      (Condition.group g.close).tests.Perm (w.links.map Prod.snd) ∧
      (inTurn = true →
        (Condition.group g.close).links w.connective = Link.behind w.connective w.links) := by
  have tests : testsOf g.close = testsOf g.content := by
    rw [testsOf_close, testsOf_settle, content, testsOf_append]
  refine ⟨?_, ?_, fun still => ?_⟩
  · rw [Bool.eq_iff_iff, List.isEmpty_iff, List.isEmpty_iff, close_eq_nil_iff reads.filled,
      ← List.map_eq_nil_iff (f := Prod.snd)]
    exact ⟨fun empty => (empty ▸ reads.tests).nil_eq.symm,
      fun empty => (empty ▸ reads.tests).eq_nil⟩
  · rw [Condition.tests, tests]
    exact reads.tests
  · rw [Condition.links, linksOf_close reads.filled, reads.links still]

end

end OpenGroup

namespace ConditionDraft

/-- Conditions hold what has been written, in all parentheses that are open. -/
structure ReadsAs (c : ConditionDraft) (w : WrittenConditions) : Prop where
  grouping : c.grouping = w.grouping
  inner : c.inner.ReadsAs w.inTurn w.inner
  outer : List.Forall₂ (OpenGroup.ReadsAs w.inTurn) c.outer w.outer

theorem readsAs_empty (grouping : Bool) : (empty grouping).ReadsAs (.empty grouping) :=
  ⟨rfl, OpenGroup.readsAs_empty true .and, .nil⟩

section

variable {c : ConditionDraft} {w : WrittenConditions}

theorem ReadsAs.add (reads : c.ReadsAs w) {connective : Connective} {added : Condition}
    {links : List Link} (tested : added.tests ≠ []) (tests : added.tests.Perm (links.map Prod.snd))
    (same : w.inTurn = true → added.links connective = links) :
    (c.add connective added).ReadsAs (w.add links) := by
  rw [ConditionDraft.add, reads.grouping]
  refine ⟨rfl, reads.inner.add tested tests same w.grouping, ?_⟩
  exact reads.outer.imp fun _ _ outer => outer.mono fun still => (Bool.and_eq_true_iff.mp still).1

theorem ReadsAs.openGroup (reads : c.ReadsAs w) (connective : Connective) :
    (c.openGroup connective).ReadsAs
      { w with inner := ⟨connective, [], false⟩, outer := w.inner :: w.outer } :=
  ⟨reads.grouping, OpenGroup.readsAs_empty _ connective, .cons reads.inner reads.outer⟩

/-- Parentheses can be closed just where some are open. -/
theorem ReadsAs.closeGroup (reads : c.ReadsAs w) :
    match c.closeGroup with
    | .ok closed => closed.ReadsAs w.closeGroup
    | .error _ => w.closeGroup = w := by
  obtain ⟨grouping, inner, outer⟩ := reads
  obtain ⟨mode, g, _⟩ := c
  obtain ⟨mode', written, _, inTurn⟩ := w
  unfold ConditionDraft.closeGroup WrittenConditions.closeGroup
  cases outer with
  | nil => rfl
  | @cons around around' outside outside' first rest =>
    obtain ⟨isEmpty, tests, links⟩ := inner.close
    have left : ReadsAs ⟨mode, around, outside⟩ ⟨mode', around', outside', inTurn⟩ :=
      ⟨grouping, first, rest⟩
    dsimp only
    rw [isEmpty]
    split
    · exact left
    · rename_i written
      rw [inner.connective]
      refine left.add (fun empty => written ?_) ?_ links
      · rw [empty] at tests
        exact List.isEmpty_iff.mpr (List.map_eq_nil_iff.mp tests.nil_eq.symm)
      · rw [Link.map_snd_behind]
        exact tests

/-- The tree of the conditions holds what has been written. -/
theorem ReadsAs.tree (reads : c.ReadsAs w) {t : ConditionTree} (finished : c.tree = .ok t) :
    (Condition.testsOf t.children).Perm (w.links.map Prod.snd) ∧
      (w.inTurn = true → t.links = w.links) := by
  unfold ConditionDraft.tree at finished
  split at finished
  · cases finished
    obtain ⟨-, tests, -⟩ := reads.inner.close
    refine ⟨?_, fun still => ?_⟩
    · rw [WrittenConditions.links, Link.map_snd_behind]
      exact tests
    · rw [ConditionTree.links, OpenGroup.linksOf_close reads.inner.filled, reads.inner.links still]
      rfl
  · cases finished

end

end ConditionDraft

namespace Draft

/-- The conditions of WHERE are written in a draft, and they hold what has been written. -/
structure ReadsAs (d : Draft) (w : WrittenConditions) : Prop where
  clause : d.clause = .filter
  settled : d.pending = none
  filter : d.filter.ReadsAs w

variable {d : Draft} {w : WrittenConditions}

theorem ReadsAs.mapConditions (reads : d.ReadsAs w) {f : ConditionDraft → ConditionDraft}
    {w' : WrittenConditions} (changed : (f d.filter).ReadsAs w') :
    (d.mapConditions f).ReadsAs w' := by
  unfold Draft.mapConditions
  split
  · exact ⟨reads.clause, reads.settled, changed⟩
  · rename_i other
    cases reads.clause.symm.trans other

/-- A condition is added where its field can be read, and leaves nothing where it cannot. -/
theorem ReadsAs.condition (reads : d.ReadsAs w) (connective : Connective) (field : String)
    (operator : Operator) (operand : Value) :
    (Outcome.ofExcept d (d.condition connective field operator operand)).draft.ReadsAs
      (w.addTest connective field operator operand) := by
  unfold Draft.condition WrittenConditions.addTest
  cases FieldPath.forQuery field with
  | error fault => exact reads
  | ok path =>
    let p : Predicate := ⟨path, operator, operand⟩
    change (Outcome.ofExcept d (d.addTest connective p)).draft.ReadsAs (w.add [(connective, p)])
    rw [addTest_of_settled reads.settled]
    have tested : (Condition.test p).tests ≠ [] := List.cons_ne_nil _ _
    have holds : (d.filter.add connective (.test p)).ReadsAs (w.add [(connective, p)]) :=
      reads.filter.add tested (.refl _) fun _ => rfl
    exact reads.mapConditions (f := fun c => c.add connective (.test p)) holds

/-- Every call on the conditions writes what it says. -/
theorem ReadsAs.edit (reads : d.ReadsAs w) {e : Edit} (condition : e.isCondition) :
    (d.edit e).draft.ReadsAs (w.take e) := by
  cases e with
  | setGrouping grouping =>
    exact ⟨reads.clause, reads.settled, ⟨rfl, reads.filter.inner, reads.filter.outer⟩⟩
  | beginClause c field operator operand =>
    cases c with
    | filter =>
      have begun : (d.setClause .filter).ReadsAs w := ⟨rfl, reads.settled, reads.filter⟩
      exact begun.condition .and field operator operand
    | having => cases condition
  | condition connective field operator operand =>
    exact reads.condition connective field operator operand
  | openGroup connective =>
    change (d.mapConditions fun c => c.openGroup connective).ReadsAs _
    exact reads.mapConditions (reads.filter.openGroup connective)
  | closeGroup =>
    have closed := reads.filter.closeGroup
    change (Outcome.ofExcept d d.closeGroup).draft.ReadsAs w.closeGroup
    have conditions : d.conditions = d.filter := by
      rw [Draft.conditions, reads.clause]
    rw [Draft.closeGroup, conditions]
    cases found : d.filter.closeGroup with
    | error fault =>
      rw [found] at closed
      rw [closed]
      exact reads
    | ok next =>
      rw [found] at closed
      exact reads.mapConditions (f := fun _ => next) closed
  | _ => cases condition

theorem ReadsAs.editAll (reads : d.ReadsAs w) {edits : List Edit}
    (conditions : ∀ e ∈ edits, e.isCondition) : (d.editAll edits).ReadsAs (w.takeAll edits) := by
  induction edits generalizing d w with
  | nil => exact reads
  | cons e rest ih =>
    obtain ⟨first, later⟩ := List.forall_mem_cons.mp conditions
    exact ih (reads.edit first) later

/-- Whatever calls have written the conditions of WHERE, their tree holds exactly the predicates
that have been added. As long as these stand in turn, it holds them in the order of the calls, each
behind the connective that it was added with. -/
theorem links_editAll {settings : QuerySettings} {edits : List Edit} {q : Query}
    (conditions : ∀ e ∈ edits, e.isCondition)
    (built : ((empty settings).editAll edits).build = .ok q) :
    let written := (WrittenConditions.empty settings.grouping).takeAll edits
    (Condition.testsOf q.filter.children).Perm (written.links.map Prod.snd) ∧
      (written.inTurn = true → q.filter.links = written.links) := by
  have start : (empty settings).ReadsAs (.empty settings.grouping) :=
    ⟨rfl, rfl, ConditionDraft.readsAs_empty settings.grouping⟩
  obtain ⟨filter, _, finished, _, rfl⟩ := exists_of_build built
  exact (start.editAll conditions).filter.tree finished

/-- Calls that turn the tighter binding of AND off and on again, outside of parentheses before it
was ever on and inside of them. -/
def turnedEdits : List Edit :=
  [.setGrouping false, .beginClause .filter "a" .equal (.int 1), .condition .or "b" .equal (.int 2),
    .setGrouping true, .condition .or "c" .equal (.int 3), .condition .and "d" .equal (.int 4),
    .openGroup .xor, .setGrouping false, .condition .and "e" .equal (.int 5),
    .condition .or "f" .equal (.int 6), .setGrouping true, .closeGroup]

theorem links_editAll_turned :
    let written := (WrittenConditions.empty true).takeAll turnedEdits
    ∃ q, (∀ e ∈ turnedEdits, e.isCondition) ∧
      ((empty .default).editAll turnedEdits).build = .ok q ∧ written.inTurn = true ∧
      (Condition.testsOf q.filter.children).Perm (written.links.map Prod.snd) ∧
      q.filter.links = written.links := by
  intro written
  have conditions : ∀ e ∈ turnedEdits, e.isCondition := by
    simp [turnedEdits, Edit.isCondition]
  have built : ((empty .default).editAll turnedEdits).build.toOption.isSome := by decide +kernel
  have inTurn : written.inTurn = true := by decide +kernel
  cases found : ((empty .default).editAll turnedEdits).build with
  | error fault =>
    rw [found] at built
    cases built
  | ok q =>
    obtain ⟨tests, links⟩ := links_editAll conditions found
    exact ⟨q, conditions, rfl, inTurn, tests, links inTurn⟩

/-- A condition that is added while AND is not to bind tighter is put in front of those that may
still become a group. -/
theorem not_links_editAll : ¬ ∀ (settings : QuerySettings) (edits : List Edit) (q : Query),
    (∀ e ∈ edits, e.isCondition) → ((empty settings).editAll edits).build = .ok q →
      q.filter.links = ((WrittenConditions.empty settings.grouping).takeAll edits).links := by
  intro same
  let edits : List Edit := [.beginClause .filter "a" .equal (.int 1), .setGrouping false,
    .condition .or "b" .equal (.int 2)]
  let texts (links : List Link) : List (Connective × String) :=
    links.map fun link => (link.1, link.2.field.text)
  have conditions : ∀ e ∈ edits, e.isCondition := by simp [edits, Edit.isCondition]
  have built : ((empty .default).editAll edits).build.toOption.map (fun q => texts q.filter.links) =
      some [(.and, "b"), (.and, "a")] := by
    decide +kernel
  have written : texts ((WrittenConditions.empty true).takeAll edits).links =
      [(.and, "a"), (.or, "b")] := by
    decide +kernel
  cases found : ((empty .default).editAll edits).build with
  | error fault =>
    rw [found] at built
    cases built
  | ok q =>
    have links := same .default edits q conditions found
    rw [found] at built
    simp only [Except.toOption, Option.map_some, Option.some.injEq] at built
    rw [links] at built
    exact absurd (written.symm.trans built) (by decide)

end Draft

end RecordQuery
