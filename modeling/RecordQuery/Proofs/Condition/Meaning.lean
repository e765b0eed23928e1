import RecordQuery.Condition

namespace RecordQuery

namespace Predicate

/-- Whether a predicate evaluates to true. One that fails to evaluate does not hold. -/
def holds (r : Record) (mode : Strictness) (p : Predicate) : Bool :=
  match p.evaluate r mode with
  | .ok b => b
  | .error _ => false

/-- Why a predicate fails to evaluate, if it does. -/
def failure? (r : Record) (mode : Strictness) (p : Predicate) : Option QueryError :=
  match p.evaluate r mode with
  | .ok _ => none
  | .error e => some e

end Predicate

namespace Condition

/-- Joins truths from left to right, all with the same strength. -/
def foldTruths : List (Connective × Bool) → Bool
  | [] => true
  | (_, first) :: rest => rest.foldl (fun a b => b.1.apply a b.2) first

/-- The longest runs of truths that are joined by AND, each with the connective in front of it. -/
def runs : List (Connective × Bool) → List (Connective × List Bool)
  | [] => []
  | (connective, b) :: rest =>
    match runs rest with
    | (.and, bs) :: later => (connective, b :: bs) :: later
    | later => (connective, [b]) :: later

/-- The runs as single truths: a run holds when all of it does. -/
def conjunctions (truths : List (Connective × Bool)) : List (Connective × Bool) :=
  (runs truths).map fun run => (run.1, run.2.all id)

/-- Joins truths from left to right. With `grouping`, AND binds tighter than OR and XOR. -/
def joinTruths (grouping : Bool) (truths : List (Connective × Bool)) : Bool :=
  foldTruths (if grouping then conjunctions truths else truths)

mutual

/-- The truth of a condition as it is written, given which predicates hold. -/
def truth (grouping : Bool) (holds : Predicate → Bool) : Condition → Bool
  | .test p => holds p
  | .group children => joinTruths grouping (truths grouping holds children)

def truths (grouping : Bool) (holds : Predicate → Bool) :
    List (Connective × Condition) → List (Connective × Bool)
  | [] => []
  | (connective, c) :: rest => (connective, truth grouping holds c) :: truths grouping holds rest

end

mutual

/-- The predicates of a condition from left to right. -/
def tests : Condition → List Predicate
  | .test p => [p]
  | .group children => testsOf children

def testsOf : List (Connective × Condition) → List Predicate
  | [] => []
  | (_, c) :: rest => tests c ++ testsOf rest

end

/-- What a written condition means for a record: the error of the leftmost predicate that fails to
evaluate, or else the truth of the condition. -/
def meaning (grouping : Bool) (c : Condition) (r : Record) (mode : Strictness) :
    Except QueryError Bool :=
  match c.tests.findSome? (Predicate.failure? r mode) with
  | some e => .error e
  | none => .ok (c.truth grouping (Predicate.holds r mode))

theorem truths_append (grouping : Bool) (holds : Predicate → Bool)
    (xs ys : List (Connective × Condition)) :
    truths grouping holds (xs ++ ys) = truths grouping holds xs ++ truths grouping holds ys := by
  induction xs with
  | nil => simp only [List.nil_append, truths]
  | cons x rest ih =>
    obtain ⟨connective, c⟩ := x
    simp only [List.cons_append, truths, ih]

theorem testsOf_append (xs ys : List (Connective × Condition)) :
    testsOf (xs ++ ys) = testsOf xs ++ testsOf ys := by
  induction xs with
  | nil => simp only [List.nil_append, testsOf]
  | cons x rest ih =>
    obtain ⟨connective, c⟩ := x
    simp only [List.cons_append, testsOf, ih, List.append_assoc]

theorem foldl_fold_some (rest : List (Connective × Bool)) (a : Bool) :
    rest.foldl (fun before b => some (b.1.fold before b.2)) (some a) =
      some (rest.foldl (fun a b => b.1.apply a b.2) a) := by
  induction rest generalizing a with
  | nil => rfl
  | cons b rest ih => exact ih (b.1.apply a b.2)

theorem getD_foldl_fold (truths : List (Connective × Bool)) :
    (truths.foldl (fun before b => some (b.1.fold before b.2)) none).getD true =
      foldTruths truths := by
  cases truths with
  | nil => rfl
  | cons first rest => exact congrArg (·.getD true) (foldl_fold_some rest first.2)

mutual

/-- Evaluation treats all connectives alike, so it finds what the condition means without
grouping. -/
theorem evaluate_eq_meaning (r : Record) (mode : Strictness) (c : Condition) :
    c.evaluate r mode = c.meaning false r mode := by
  cases c with
  | test p =>
    simp only [evaluate, meaning, tests, truth, List.findSome?_cons, List.findSome?_nil,
      Predicate.failure?, Predicate.holds]
    cases p.evaluate r mode <;> rfl
  | group children =>
    simp only [evaluate, evaluateAll_eq, meaning, tests, truth, joinTruths]
    cases (testsOf children).findSome? (Predicate.failure? r mode) with
    | some e => rfl
    | none => exact congrArg Except.ok (getD_foldl_fold _)

theorem evaluateAll_eq (r : Record) (mode : Strictness) (before : Option Bool)
    (children : List (Connective × Condition)) :
    evaluateAll r mode before children =
      match (testsOf children).findSome? (Predicate.failure? r mode) with
      | some e => .error e
      | none => .ok ((truths false (Predicate.holds r mode) children).foldl
          (fun before b => some (b.1.fold before b.2)) before) := by
  match children with
  | [] => rfl
  | (connective, c) :: rest =>
    rw [evaluateAll, evaluate_eq_meaning r mode c, testsOf, List.findSome?_append, meaning]
    cases c.tests.findSome? (Predicate.failure? r mode) with
    | some e => rfl
    | none => exact evaluateAll_eq r mode _ rest

end

end Condition

end RecordQuery
