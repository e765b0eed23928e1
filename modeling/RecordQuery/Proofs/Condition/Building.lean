import RecordQuery.Condition.Draft
import RecordQuery.Proofs.Condition.Meaning

namespace RecordQuery

/-- Adds conditions one after the other. -/
def OpenGroup.addAll (g : OpenGroup) (grouping : Bool) (xs : List (Connective × Condition)) :
    OpenGroup :=
  xs.foldl (fun g x => g.add grouping x.1 x.2) g

namespace Condition

mutual

/-- The condition that is built for a written one behind a connective. -/
def built (grouping : Bool) (connective : Connective) : Condition → Condition
  | .test p => .test p
  | .group children =>
    .group ((OpenGroup.empty connective).addAll grouping (builtAll grouping children)).close

def builtAll (grouping : Bool) :
    List (Connective × Condition) → List (Connective × Condition)
  | [] => []
  | (connective, c) :: rest => (connective, built grouping connective c) :: builtAll grouping rest

end

theorem builtAll_append (grouping : Bool) (xs ys : List (Connective × Condition)) :
    builtAll grouping (xs ++ ys) = builtAll grouping xs ++ builtAll grouping ys := by
  induction xs with
  | nil => simp only [List.nil_append, builtAll]
  | cons x rest ih =>
    obtain ⟨connective, c⟩ := x
    simp only [List.cons_append, builtAll, ih]

/-- Whatever run stands first, its truths are its own first one and those that join it. -/
theorem runs_cons (rest : List (Connective × Bool)) :
    ∃ bs later, ∀ connective b,
      runs ((connective, b) :: rest) = (connective, b :: bs) :: later := by
  cases found : runs rest with
  | nil => exact ⟨[], [], fun connective b => by rw [runs, found]⟩
  | cons first later =>
    obtain ⟨_ | _ | _, bs⟩ := first
    · exact ⟨bs, later, fun connective b => by rw [runs, found]⟩
    · exact ⟨[], _, fun connective b => by rw [runs, found]⟩
    · exact ⟨[], _, fun connective b => by rw [runs, found]⟩

/-- A truth joined by AND goes into the conjunction before it. -/
theorem conjunctions_and (connective : Connective) (a b : Bool) (rest : List (Connective × Bool)) :
    conjunctions ((connective, a) :: (.and, b) :: rest) =
      conjunctions ((connective, a && b) :: rest) := by
  obtain ⟨bs, later, split⟩ := runs_cons rest
  have joined :
      runs ((connective, a) :: (.and, b) :: rest) = (connective, a :: b :: bs) :: later := by
    rw [runs, split .and b]
  simp only [conjunctions, joined, split connective (a && b), List.map_cons, List.all_cons, id_eq,
    Bool.and_assoc]

/-- Any other connective begins the next conjunction. -/
theorem conjunctions_other {connective : Connective} (other : connective ≠ .and)
    (first : Connective) (a b : Bool) (rest : List (Connective × Bool)) :
    conjunctions ((first, a) :: (connective, b) :: rest) =
      (first, a) :: conjunctions ((connective, b) :: rest) := by
  obtain ⟨bs, later, split⟩ := runs_cons rest
  have parted : runs ((first, a) :: (connective, b) :: rest) =
      (first, [a]) :: (connective, b :: bs) :: later := by
    rw [runs, split connective b]
    cases connective with
    | and => exact absurd rfl other
    | or => rfl
    | xor => rfl
  simp only [conjunctions, parted, split connective b, List.map_cons, List.all_cons, List.all_nil,
    id_eq, Bool.and_true]

theorem foldTruths_concat {truths : List (Connective × Bool)} (nonempty : truths ≠ [])
    (connective : Connective) (b : Bool) :
    foldTruths (truths ++ [(connective, b)]) = connective.apply (foldTruths truths) b := by
  cases truths with
  | nil => exact absurd rfl nonempty
  | cons first rest =>
    simp only [List.cons_append, foldTruths, List.foldl_append, List.foldl_cons, List.foldl_nil]

end Condition

namespace OpenGroup

open Condition

theorem addAll_cons (g : OpenGroup) (grouping : Bool) (connective : Connective) (c : Condition)
    (rest : List (Connective × Condition)) :
    g.addAll grouping ((connective, c) :: rest) =
      (g.add grouping connective c).addAll grouping rest :=
  rfl

theorem addAll_concat (g : OpenGroup) (grouping : Bool) (xs : List (Connective × Condition))
    (connective : Connective) (c : Condition) :
    g.addAll grouping (xs ++ [(connective, c)]) =
      (g.addAll grouping xs).add grouping connective c := by
  simp only [addAll, List.foldl_append, List.foldl_cons, List.foldl_nil]

theorem connective_settle (g : OpenGroup) : g.settle.connective = g.connective := by
  unfold settle
  split <;> rfl

theorem connective_add (g : OpenGroup) (grouping : Bool) (connective : Connective)
    (c : Condition) : (g.add grouping connective c).connective = g.connective := by
  rw [add]
  split
  · rfl
  split
  · exact connective_settle g
  · rfl

theorem connective_addAll (g : OpenGroup) (grouping : Bool)
    (xs : List (Connective × Condition)) : (g.addAll grouping xs).connective = g.connective := by
  induction xs generalizing g with
  | nil => rfl
  | cons x rest ih => rw [addAll_cons, ih, connective_add]

/-- Without grouping all conditions are settled as they come. -/
theorem addAll_settled (g : OpenGroup) (xs : List (Connective × Condition)) :
    g.addAll false xs = { g with settled := g.settled ++ xs } := by
  induction xs generalizing g with
  | nil => simp only [addAll, List.foldl_nil, List.append_nil]
  | cons x rest ih =>
    rw [addAll_cons, ih]
    simp only [add, Bool.not_false, if_true, List.append_assoc, List.singleton_append]

/-- A condition joined by AND goes into the run. -/
theorem add_and (g : OpenGroup) (c : Condition) :
    g.add true .and c = { g with run := g.run ++ [(.and, c)] } := by
  simp [add]

theorem add_first {g : OpenGroup} (empty : g.run = []) (connective : Connective) (c : Condition) :
    g.add true connective c = { g with run := [(connective, c)] } := by
  simp [add, empty]

/-- A condition with another connective begins the next run. -/
theorem add_other {g : OpenGroup} (nonempty : g.run ≠ []) {connective : Connective}
    (other : connective ≠ .and) (c : Condition) :
    g.add true connective c = { g.settle with run := [(connective, c)] } := by
  simp [add, nonempty, other]

section

variable (holds : Predicate → Bool)

/-- A run that is settled is a single truth, the one that all of it has. -/
theorem truths_settle {g : OpenGroup} {connective : Connective} {c : Condition}
    {rest : List (Connective × Condition)} (run : g.run = (connective, c) :: rest) :
    truths false holds g.settle.settled =
      truths false holds g.settled ++ [(connective, foldTruths (truths false holds g.run))] := by
  cases rest with
  | nil =>
    simp only [settle, run, truths_append]
    rfl
  | cons next rest =>
    simp only [settle, run, truths_append]
    rfl

/-- What is added to an open group with a run in it goes on with the conjunctions. -/
theorem truths_settle_addAll (xs : List (Connective × Condition)) {g : OpenGroup}
    {connective : Connective} {c : Condition} {rest : List (Connective × Condition)}
    (run : g.run = (connective, c) :: rest) :
    truths false holds (g.addAll true xs).settle.settled =
      truths false holds g.settled ++
        conjunctions ((connective, foldTruths (truths false holds g.run)) ::
          truths false holds xs) := by
  induction xs generalizing g connective c rest with
  | nil =>
    rw [addAll, List.foldl_nil, truths_settle holds run]
    simp [truths, conjunctions, runs]
  | cons x xs ih =>
    obtain ⟨next, d⟩ := x
    rw [addAll_cons, truths]
    by_cases joined : next = .and
    · subst joined
      have grown : (g.add true .and d).run = (connective, c) :: (rest ++ [(.and, d)]) := by
        rw [add_and, run, List.cons_append]
      have present : truths false holds g.run ≠ [] := by
        rw [run, truths]
        exact List.cons_ne_nil _ _
      have all : foldTruths (truths false holds (g.add true .and d).run) =
          (foldTruths (truths false holds g.run) && d.truth false holds) := by
        rw [add_and, truths_append]
        exact foldTruths_concat present .and _
      rw [ih grown, all, conjunctions_and, add_and]
    · have present : g.run ≠ [] := by
        rw [run]
        exact List.cons_ne_nil _ _
      have begun : (g.add true next d).run = (next, d) :: [] := by
        rw [add_other present joined]
      have settled : (g.add true next d).settled = g.settle.settled := by
        rw [add_other present joined]
      rw [ih begun, begun, settled, truths_settle holds run, conjunctions_other joined,
        List.append_assoc]
      rfl

/-- A group that holds nothing but another group has the truth of that one. -/
theorem foldTruths_close (g : OpenGroup) :
    foldTruths (truths false holds g.close) =
      foldTruths (truths false holds g.settle.settled) := by
  unfold close
  split
  · rename_i lone
    rw [lone]
    rfl
  · rfl

/-- The conditions of a closed group have the truth that the rule of precedence gives to what was
added to it. -/
theorem foldTruths_close_addAll (grouping : Bool) (connective : Connective)
    (xs : List (Connective × Condition)) :
    foldTruths (truths false holds ((empty connective).addAll grouping xs).close) =
      joinTruths grouping (truths false holds xs) := by
  rw [foldTruths_close]
  cases grouping with
  | false =>
    rw [addAll_settled]
    rfl
  | true =>
    cases xs with
    | nil => rfl
    | cons x rest =>
      obtain ⟨first, c⟩ := x
      have begun : (empty connective).add true first c = ⟨connective, [], [(first, c)]⟩ :=
        add_first rfl first c
      rw [addAll_cons, begun,
        truths_settle_addAll holds rest (g := ⟨connective, [], [(first, c)]⟩) rfl]
      rfl

end

theorem testsOf_settle (g : OpenGroup) :
    testsOf g.settle.settled = testsOf g.settled ++ testsOf g.run := by
  unfold settle
  split <;> rename_i run <;> simp [run, testsOf_append, testsOf, tests]

theorem testsOf_close (g : OpenGroup) : testsOf g.close = testsOf g.settle.settled := by
  unfold close
  split
  · rename_i lone
    simp [lone, testsOf, tests]
  · rfl

theorem testsOf_settle_addAll (g : OpenGroup) (xs : List (Connective × Condition)) :
    testsOf (g.addAll true xs).settle.settled = testsOf g.settle.settled ++ testsOf xs := by
  induction xs generalizing g with
  | nil => simp [addAll, testsOf]
  | cons x rest ih =>
    obtain ⟨connective, c⟩ := x
    rw [addAll_cons, ih, testsOf, ← List.append_assoc]
    congr 1
    rw [testsOf_settle, testsOf_settle, add]
    by_cases later : !g.run.isEmpty && connective != .and
    · simp [later, testsOf_settle, testsOf]
    · simp [later, testsOf_append, testsOf]

/-- The predicates of a group to which a condition is added are those it has had and the new
ones. -/
theorem mem_testsOf_settle_add {g : OpenGroup} {grouping : Bool} {connective : Connective}
    {c : Condition} {p : Predicate} :
    p ∈ testsOf (g.add grouping connective c).settle.settled ↔
      p ∈ testsOf g.settle.settled ∨ p ∈ c.tests := by
  cases grouping with
  | false =>
    have added : g.add false connective c = { g with settled := g.settled ++ [(connective, c)] } :=
      rfl
    simp only [added, testsOf_settle, testsOf_append, testsOf, List.append_nil, List.mem_append]
    exact or_right_comm
  | true =>
    have all := testsOf_settle_addAll g [(connective, c)]
    rw [addAll_cons, testsOf, testsOf, List.append_nil] at all
    change p ∈ testsOf (((g.add true connective c).addAll true []).settle.settled) ↔ _
    rw [all, List.mem_append]

/-- Closing a group keeps its predicates in their order. -/
theorem testsOf_close_addAll (grouping : Bool) (connective : Connective)
    (xs : List (Connective × Condition)) :
    testsOf ((empty connective).addAll grouping xs).close = testsOf xs := by
  rw [testsOf_close]
  cases grouping with
  | false =>
    rw [addAll_settled]
    rfl
  | true =>
    rw [testsOf_settle_addAll]
    rfl

end OpenGroup

namespace Condition

mutual

theorem truth_built (grouping : Bool) (holds : Predicate → Bool) (connective : Connective)
    (c : Condition) :
    (c.built grouping connective).truth false holds = c.truth grouping holds := by
  cases c with
  | test p => rfl
  | group children =>
    rw [built, truth, truth, ← truths_builtAll grouping holds children]
    exact OpenGroup.foldTruths_close_addAll holds grouping connective _

theorem truths_builtAll (grouping : Bool) (holds : Predicate → Bool)
    (xs : List (Connective × Condition)) :
    truths false holds (builtAll grouping xs) = truths grouping holds xs := by
  match xs with
  | [] => rfl
  | (connective, c) :: rest =>
    rw [builtAll, truths, truths, truth_built grouping holds connective c,
      truths_builtAll grouping holds rest]

end

mutual

theorem tests_built (grouping : Bool) (connective : Connective) (c : Condition) :
    (c.built grouping connective).tests = c.tests := by
  cases c with
  | test p => rfl
  | group children =>
    rw [built, tests, tests, OpenGroup.testsOf_close_addAll, testsOf_builtAll grouping children]

theorem testsOf_builtAll (grouping : Bool) (xs : List (Connective × Condition)) :
    testsOf (builtAll grouping xs) = testsOf xs := by
  match xs with
  | [] => rfl
  | (connective, c) :: rest =>
    rw [builtAll, testsOf, testsOf, tests_built grouping connective c,
      testsOf_builtAll grouping rest]

end

/-- The condition that is built evaluates to what the written one means. -/
theorem evaluate_built (grouping : Bool) (connective : Connective) (c : Condition) (r : Record)
    (mode : Strictness) :
    (c.built grouping connective).evaluate r mode = c.meaning grouping r mode := by
  rw [evaluate_eq_meaning, meaning, meaning, tests_built, truth_built]

end Condition

end RecordQuery
