import RecordQuery.Proofs.Condition.Building

namespace RecordQuery

/-- A predicate with the connective that joins it to what stands before it. -/
abbrev Link := Connective × Predicate

namespace Link

/-- Links of which the first one is joined by a connective to what stands before all of them. -/
def behind (connective : Connective) : List Link → List Link
  | [] => []
  | (_, p) :: rest => (connective, p) :: rest

theorem behind_behind (connective other : Connective) (links : List Link) :
    behind connective (behind other links) = behind connective links := by
  cases links <;> rfl

theorem behind_append (connective : Connective) {links : List Link} (nonempty : links ≠ [])
    (later : List Link) :
    behind connective (links ++ later) = behind connective links ++ later := by
  cases links with
  | nil => exact absurd rfl nonempty
  | cons first rest => rfl

theorem map_snd_behind (connective : Connective) (links : List Link) :
    (behind connective links).map Prod.snd = links.map Prod.snd := by
  cases links <;> rfl

end Link

namespace Condition

open Link

mutual

/-- The predicates of a condition behind a connective, from left to right. Whatever parentheses it
stands first in, a predicate is joined to what stands before all of them. -/
def links (connective : Connective) : Condition → List Link
  | .test p => [(connective, p)]
  | .group children => behind connective (linksOf children)

def linksOf : List (Connective × Condition) → List Link
  | [] => []
  | (connective, c) :: rest => links connective c ++ linksOf rest

end

theorem linksOf_append (xs ys : List (Connective × Condition)) :
    linksOf (xs ++ ys) = linksOf xs ++ linksOf ys := by
  induction xs with
  | nil => rfl
  | cons x rest ih => rw [List.cons_append, linksOf, linksOf, ih, List.append_assoc]

theorem behind_links (connective other : Connective) (c : Condition) :
    behind connective (c.links other) = c.links connective := by
  cases c with
  | test p => rfl
  | group children => rw [links, links, behind_behind]

mutual

theorem map_snd_links (connective : Connective) (c : Condition) :
    (c.links connective).map Prod.snd = c.tests := by
  match c with
  | .test p => rfl
  | .group children => rw [links, map_snd_behind, tests, map_snd_linksOf children]

theorem map_snd_linksOf (xs : List (Connective × Condition)) :
    (linksOf xs).map Prod.snd = testsOf xs := by
  match xs with
  | [] => rfl
  | (connective, c) :: rest =>
    rw [linksOf, testsOf, List.map_append, map_snd_links connective c, map_snd_linksOf rest]

end

/-- There are predicates in each of some conditions. -/
def Filled (xs : List (Connective × Condition)) : Prop :=
  ∀ x ∈ xs, x.2.tests ≠ []

theorem Filled.testsOf_ne_nil {xs : List (Connective × Condition)} (filled : Filled xs)
    (nonempty : xs ≠ []) : testsOf xs ≠ [] := by
  cases xs with
  | nil => exact absurd rfl nonempty
  | cons x rest =>
    rw [testsOf]
    exact fun empty => filled x (List.mem_cons_self ..) (List.append_eq_nil_iff.mp empty).1

/-- Parentheses around conditions change nothing in how their predicates are joined, as long as the
connective of the first one stands in front of them. -/
theorem links_group {connective : Connective} {c : Condition}
    {rest : List (Connective × Condition)} (tested : c.tests ≠ []) :
    (group ((connective, c) :: rest)).links connective = linksOf ((connective, c) :: rest) := by
  have nonempty : c.links connective ≠ [] := fun empty => tested <| by
    rw [← map_snd_links connective c, empty]
    rfl
  rw [links, linksOf, behind_append connective nonempty, behind_links]

end Condition

namespace OpenGroup

open Condition Link

variable {g : OpenGroup}

/-- The conditions in open parentheses: those that are settled and, behind them, the run. -/
def content (g : OpenGroup) : List (Connective × Condition) :=
  g.settled ++ g.run

theorem filled_settle (filled : Filled g.content) : Filled g.settle.settled := by
  have run : Filled g.run := fun x member => filled x (List.mem_append_right _ member)
  have settled : Filled g.settled := fun x member => filled x (List.mem_append_left _ member)
  unfold settle
  split
  · exact settled
  · rename_i only same
    rw [same] at run
    exact List.forall_mem_append.mpr ⟨settled, run⟩
  · rename_i connective c rest _ same
    refine List.forall_mem_append.mpr ⟨settled, List.forall_mem_singleton.mpr ?_⟩
    rw [← same]
    exact run.testsOf_ne_nil (by rw [same]; exact List.cons_ne_nil _ _)

/-- A run that is settled keeps its predicates behind the others. -/
theorem linksOf_settle (filled : Filled g.content) :
    linksOf g.settle.settled = linksOf g.content := by
  rw [content, linksOf_append]
  unfold settle
  split
  · rename_i noRun
    rw [noRun]
    exact (List.append_nil _).symm
  · rename_i only same
    rw [same, linksOf_append]
  · rename_i connective c rest _ same
    have tested : c.tests ≠ [] := filled (connective, c) <| by
      rw [content, same]
      exact List.mem_append_right _ (List.mem_cons_self ..)
    rw [same, linksOf_append, linksOf, links_group tested]
    exact congrArg _ (List.append_nil _)

theorem linksOf_close (filled : Filled g.content) (connective : Connective) :
    behind connective (linksOf g.close) = behind connective (linksOf g.content) := by
  rw [← linksOf_settle filled]
  unfold close
  split
  · rename_i other children lone
    rw [lone, linksOf, linksOf, List.append_nil, links, behind_behind]
  · rfl

/-- Parentheses are only empty if there are no predicates in them. -/
theorem close_eq_nil_iff (filled : Filled g.content) : g.close = [] ↔ testsOf g.content = [] := by
  have tests : testsOf g.content = testsOf g.close := by
    rw [testsOf_close, testsOf_settle, content, testsOf_append]
  rw [tests]
  refine ⟨fun empty => by rw [empty]; rfl, fun empty => ?_⟩
  rw [testsOf_close] at empty
  have nothing : g.settle.settled = [] := Classical.byContradiction fun nonempty =>
    (filled_settle filled).testsOf_ne_nil nonempty empty
  rw [close, nothing]

end OpenGroup

/-- The predicates of a tree from left to right, with AND in front of the first one. -/
def ConditionTree.links (tree : ConditionTree) : List Link :=
  Link.behind .and (Condition.linksOf tree.children)

end RecordQuery
