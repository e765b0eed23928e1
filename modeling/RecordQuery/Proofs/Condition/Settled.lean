import RecordQuery.Proofs.Condition.Building

namespace RecordQuery

namespace Condition

/-- Conditions that need no other parentheses than they have: a single test, or some of them that
are joined by AND alone or by the other connectives alone. Where AND binds no tighter, they may be
joined in any way. -/
inductive IsUniform (grouping : Bool) : List (Connective × Condition) → Prop
  | test (connective : Connective) (p : Predicate) : IsUniform grouping [(connective, .test p)]
  | and {x y rest} : (∀ z ∈ y :: rest, z.1 = .and) → IsUniform grouping (x :: y :: rest)
  | other {x y rest} : (∀ z ∈ y :: rest, z.1 ≠ .and) → IsUniform grouping (x :: y :: rest)
  | mixed {x y rest} : grouping = false → IsUniform grouping (x :: y :: rest)

section

variable {grouping : Bool} {xs : List (Connective × Condition)}

theorem IsUniform.ne_nil (uniform : IsUniform grouping xs) : xs ≠ [] := by
  cases uniform <;> exact List.cons_ne_nil _ _

/-- Uniform conditions are not just a group. -/
theorem IsUniform.close_settled (uniform : IsUniform grouping xs) (connective : Connective) :
    OpenGroup.close ⟨connective, xs, []⟩ = xs := by
  cases uniform with
  | test => rfl
  | @and x | @other x | @mixed x => obtain ⟨first, _ | _⟩ := x <;> rfl

end

mutual

/-- Conditions as they are built: there are neither groups of nothing nor groups of just a group,
and where AND binds tighter, AND and other connectives do not stand side by side. -/
def IsSettled (grouping : Bool) : Condition → Prop
  | .test _ => True
  | .group children => IsUniform grouping children ∧ AllSettled grouping children

def AllSettled (grouping : Bool) : List (Connective × Condition) → Prop
  | [] => True
  | (_, c) :: rest => c.IsSettled grouping ∧ AllSettled grouping rest

end

mutual

/-- The same condition with AND, which means nothing there, in front of all first ones. -/
def fromAnd : Condition → Condition
  | .test p => .test p
  | .group children => .group (fromAndAll children)

def fromAndAll : List (Connective × Condition) → List (Connective × Condition)
  | [] => []
  | (_, c) :: rest => (.and, c.fromAnd) :: fromAndRest rest

def fromAndRest : List (Connective × Condition) → List (Connective × Condition)
  | [] => []
  | (connective, c) :: rest => (connective, c.fromAnd) :: fromAndRest rest

end

theorem fromAndRest_eq_map (xs : List (Connective × Condition)) :
    fromAndRest xs = xs.map fun x => (x.1, x.2.fromAnd) := by
  induction xs with
  | nil => rfl
  | cons x rest ih => rw [fromAndRest, ih, List.map_cons]

theorem IsUniform.fromAnd {grouping : Bool} {xs : List (Connective × Condition)}
    (uniform : IsUniform grouping xs) : IsUniform grouping (fromAndAll xs) := by
  have tags {P : Connective → Prop} {ys : List (Connective × Condition)}
      (all : ∀ z ∈ ys, P z.1) : ∀ z ∈ fromAndRest ys, P z.1 := by
    rw [fromAndRest_eq_map]
    intro z member
    obtain ⟨w, inside, rfl⟩ := List.mem_map.mp member
    exact all w inside
  cases uniform with
  | test connective p => exact .test .and p
  | and all => exact .and (tags (P := (· = .and)) all)
  | other all => exact .other (tags (P := (· ≠ .and)) all)
  | mixed off => exact .mixed off

mutual

theorem displayChars_fromAnd (c : Condition) : c.fromAnd.displayChars = c.displayChars := by
  match c with
  | .test p => rfl
  | .group children => rw [fromAnd, displayChars, displayChars, displayChildren_fromAndAll children]

theorem displayChildren_fromAndAll (xs : List (Connective × Condition)) :
    displayChildren (fromAndAll xs) = displayChildren xs := by
  match xs with
  | [] => rfl
  | (_, c) :: rest =>
    rw [fromAndAll, displayChildren, displayChildren, displayChars_fromAnd c,
      displayRest_fromAndRest rest]

theorem displayRest_fromAndRest (xs : List (Connective × Condition)) :
    displayRest (fromAndRest xs) = displayRest xs := by
  match xs with
  | [] => rfl
  | (_, c) :: rest =>
    rw [fromAndRest, displayRest, displayRest, displayChars_fromAnd c,
      displayRest_fromAndRest rest]

end

mutual

theorem evaluate_fromAnd (r : Record) (mode : Strictness) (c : Condition) :
    c.fromAnd.evaluate r mode = c.evaluate r mode := by
  match c with
  | .test p => rfl
  | .group children =>
    rw [fromAnd, evaluate, evaluate, evaluateAll_fromAndAll r mode children]

theorem evaluateAll_fromAndAll (r : Record) (mode : Strictness)
    (xs : List (Connective × Condition)) :
    evaluateAll r mode none (fromAndAll xs) = evaluateAll r mode none xs := by
  match xs with
  | [] => rfl
  | (_, c) :: rest =>
    rw [fromAndAll, evaluateAll, evaluateAll, evaluate_fromAnd r mode c]
    cases c.evaluate r mode with
    | error e => rfl
    | ok b => exact evaluateAll_fromAndRest r mode rest (some b)

theorem evaluateAll_fromAndRest (r : Record) (mode : Strictness)
    (xs : List (Connective × Condition)) (before : Option Bool) :
    evaluateAll r mode before (fromAndRest xs) = evaluateAll r mode before xs := by
  match xs with
  | [] => rfl
  | (connective, c) :: rest =>
    rw [fromAndRest, evaluateAll, evaluateAll, evaluate_fromAnd r mode c]
    cases c.evaluate r mode with
    | error e => rfl
    | ok b => exact evaluateAll_fromAndRest r mode rest _

end

end Condition

namespace OpenGroup

open Condition

theorem addAll_and (g : OpenGroup) {xs : List (Connective × Condition)}
    (all : ∀ x ∈ xs, x.1 = .and) : g.addAll true xs = { g with run := g.run ++ xs } := by
  induction xs generalizing g with
  | nil => rw [List.append_nil]; rfl
  | cons x rest ih =>
    obtain ⟨first, later⟩ := List.forall_mem_cons.mp all
    obtain ⟨connective, c⟩ := x
    obtain rfl : connective = .and := first
    rw [addAll_cons, add_and, ih _ later, List.append_assoc, List.singleton_append]

theorem settled_addAll_other {g : OpenGroup} {x : Connective × Condition} (run : g.run = [x])
    {xs : List (Connective × Condition)} (all : ∀ x ∈ xs, x.1 ≠ .and) :
    (g.addAll true xs).settle.settled = g.settled ++ x :: xs := by
  induction xs generalizing g x with
  | nil => simp [addAll, settle, run]
  | cons y rest ih =>
    obtain ⟨first, later⟩ := List.forall_mem_cons.mp all
    obtain ⟨connective, c⟩ := y
    have begun : g.run ≠ [] := by simp [run]
    have settled : g.settle.settled = g.settled ++ [x] := by simp [settle, run]
    rw [addAll_cons, add_other begun first, ih rfl later, settled, List.append_assoc,
      List.singleton_append]

/-- Conditions that need no other parentheses are built as they are. -/
theorem close_addAll_of_isUniform {grouping : Bool} {xs : List (Connective × Condition)}
    (uniform : IsUniform grouping xs) (connective : Connective) :
    ((empty connective).addAll grouping xs).close = xs := by
  cases grouping with
  | false =>
    rw [addAll_settled]
    exact uniform.close_settled connective
  | true =>
    have first (x : Connective × Condition) (rest : List (Connective × Condition)) :
        (empty connective).addAll true (x :: rest) =
          (⟨connective, [], [x]⟩ : OpenGroup).addAll true rest := by
      have begun : (empty connective).add true x.1 x.2 = ⟨connective, [], [x]⟩ :=
        add_first rfl x.1 x.2
      rw [← begun]
      rfl
    cases uniform with
    | test => rfl
    | and all =>
      rw [first, addAll_and _ all]
      rfl
    | @other x y rest all =>
      have settled := settled_addAll_other (g := ⟨connective, [], [x]⟩) rfl all
      obtain ⟨connective, _ | _⟩ := x <;>
        rw [first, close, settled] <;> rfl
    | mixed off => cases off

end OpenGroup

namespace Condition

section

variable {grouping : Bool}

mutual

theorem built_fromAnd {c : Condition} (settled : c.IsSettled grouping) (connective : Connective) :
    c.fromAnd.built grouping connective = c.fromAnd := by
  match c with
  | .test p => rfl
  | .group children =>
    obtain ⟨uniform, all⟩ := settled
    rw [fromAnd, built, builtAll_fromAndAll all,
      OpenGroup.close_addAll_of_isUniform uniform.fromAnd]

theorem builtAll_fromAndAll {xs : List (Connective × Condition)} (all : AllSettled grouping xs) :
    builtAll grouping (fromAndAll xs) = fromAndAll xs := by
  match xs with
  | [] => rfl
  | (_, c) :: rest =>
    obtain ⟨first, later⟩ := all
    rw [fromAndAll, builtAll, built_fromAnd first, builtAll_fromAndRest later]

theorem builtAll_fromAndRest {xs : List (Connective × Condition)}
    (all : AllSettled grouping xs) : builtAll grouping (fromAndRest xs) = fromAndRest xs := by
  match xs with
  | [] => rfl
  | (connective, c) :: rest =>
    obtain ⟨first, later⟩ := all
    rw [fromAndRest, builtAll, built_fromAnd first, builtAll_fromAndRest later]

end

theorem allSettled_iff {xs : List (Connective × Condition)} :
    AllSettled grouping xs ↔ ∀ x ∈ xs, x.2.IsSettled grouping := by
  induction xs with
  | nil => exact ⟨fun _ => nofun, fun _ => trivial⟩
  | cons x rest ih => rw [List.forall_mem_cons, AllSettled, ih]

theorem AllSettled.concat {xs : List (Connective × Condition)} (all : AllSettled grouping xs)
    {connective : Connective} {c : Condition} (settled : c.IsSettled grouping) :
    AllSettled grouping (xs ++ [(connective, c)]) := by
  rw [allSettled_iff] at all ⊢
  intro x member
  rcases List.mem_append.mp member with before | last
  · exact all x before
  · rw [List.mem_singleton.mp last]
    exact settled

end

end Condition

namespace OpenGroup

open Condition

/-- What holds of an open pair of parentheses while conditions are added to it. -/
structure IsSettled (grouping : Bool) (g : OpenGroup) : Prop where
  settled : AllSettled grouping g.settled
  run : AllSettled grouping g.run
  joined : ∀ x ∈ g.run.tail, x.1 = .and
  others : grouping = true → ∀ x ∈ g.settled.tail, x.1 ≠ .and
  begun : grouping = true → g.settled ≠ [] → ∃ x rest, g.run = x :: rest ∧ x.1 ≠ .and

variable {grouping : Bool}

theorem isSettled_empty (connective : Connective) : (empty connective).IsSettled grouping :=
  ⟨trivial, trivial, nofun, fun _ => nofun, fun _ begun => absurd rfl begun⟩

section

variable {g : OpenGroup}

/-- The whole run is settled as one condition behind those that have been settled before. -/
theorem IsSettled.exists_settle (isSettled : g.IsSettled grouping) (begun : g.run ≠ []) :
    ∃ x, g.settle.settled = g.settled ++ [x] ∧ x.2.IsSettled grouping ∧
      (grouping = true → g.settled ≠ [] → x.1 ≠ .and) := by
  have all := allSettled_iff.mp isSettled.run
  have tag {x : Connective × Condition} {rest : List (Connective × Condition)}
      (run : g.run = x :: rest) (tight : grouping = true) (before : g.settled ≠ []) :
      x.1 ≠ .and := by
    obtain ⟨y, later, same, other⟩ := isSettled.begun tight before
    rw [run] at same
    cases same
    exact other
  cases run : g.run with
  | nil => exact absurd run begun
  | cons x rest =>
    obtain ⟨connective, c⟩ := x
    cases rest with
    | nil =>
      refine ⟨(connective, c), by simp [settle, run], all _ ?_, tag run⟩
      rw [run]
      exact List.mem_singleton_self _
    | cons y rest =>
      refine ⟨(connective, .group g.run), by simp [settle, run], ⟨?_, isSettled.run⟩,
        fun tight before => tag (x := (connective, c)) run tight before⟩
      have joined := isSettled.joined
      rw [run] at joined ⊢
      exact .and joined

theorem IsSettled.settle (isSettled : g.IsSettled grouping) :
    AllSettled grouping g.settle.settled ∧
      (grouping = true → ∀ x ∈ g.settle.settled.tail, x.1 ≠ .and) := by
  rcases Classical.em (g.run = []) with empty | begun
  · have same : g.settle = g := by simp [OpenGroup.settle, empty]
    rw [same]
    exact ⟨isSettled.settled, isSettled.others⟩
  · obtain ⟨⟨connective, c⟩, same, settled, other⟩ := isSettled.exists_settle begun
    rw [same]
    refine ⟨isSettled.settled.concat settled, fun tight x member => ?_⟩
    cases before : g.settled with
    | nil =>
      rw [before] at member
      cases member
    | cons y rest =>
      have others := isSettled.others tight
      rw [before] at member others
      rcases List.mem_append.mp member with inside | last
      · exact others x inside
      · rw [List.mem_singleton.mp last]
        exact other tight (by simp [before])

/-- Where AND binds tighter, a condition ends the run or goes into it. -/
theorem IsSettled.add_tight (isSettled : g.IsSettled true) (connective : Connective)
    {c : Condition} (settled : c.IsSettled true) : (g.add true connective c).IsSettled true := by
  by_cases later : g.run ≠ [] ∧ connective ≠ .and
  · obtain ⟨begun, other⟩ := later
    obtain ⟨all, others⟩ := isSettled.settle
    rw [add_other begun other]
    exact ⟨all, ⟨settled, trivial⟩, nofun, others, fun _ _ => ⟨_, [], rfl, other⟩⟩
  · have same : g.add true connective c = { g with run := g.run ++ [(connective, c)] } := by
      rcases Classical.em (g.run = []) with empty | begun
      · rw [add_first empty, empty, List.nil_append]
      · have joined : connective = .and := by
          by_cases joined : connective = .and
          · exact joined
          · exact absurd ⟨begun, joined⟩ later
        rw [joined, add_and]
    rw [same]
    refine ⟨isSettled.settled, isSettled.run.concat settled, ?_, isSettled.others,
      fun tight begun => ?_⟩
    · intro x member
      cases run : g.run with
      | nil =>
        simp only [run] at member
        cases member
      | cons y rest =>
        have joined := isSettled.joined
        simp only [run] at member joined later
        rcases List.mem_append.mp member with inside | last
        · exact joined x inside
        · rw [List.mem_singleton.mp last]
          simpa using later
    · obtain ⟨x, rest, run, other⟩ := isSettled.begun tight begun
      exact ⟨x, rest ++ [(connective, c)], by simp [run], other⟩

theorem IsSettled.add (isSettled : g.IsSettled grouping) (connective : Connective)
    {c : Condition} (settled : c.IsSettled grouping) :
    (g.add grouping connective c).IsSettled grouping := by
  cases grouping with
  | false =>
    exact ⟨isSettled.settled.concat settled, isSettled.run, isSettled.joined, nofun, nofun⟩
  | true => exact isSettled.add_tight connective settled

/-- A group that is closed is empty or settled. -/
theorem IsSettled.close (isSettled : g.IsSettled grouping) (nonempty : g.close ≠ []) :
    (Condition.group g.close).IsSettled grouping := by
  obtain ⟨all, others⟩ := isSettled.settle
  unfold OpenGroup.close at nonempty ⊢
  generalize g.settle.settled = settled at all others nonempty ⊢
  match settled with
  | [] => exact absurd rfl nonempty
  | [(_, .test p)] => exact ⟨.test _ p, all⟩
  | [(_, .group children)] => exact all.1
  | x :: y :: rest =>
    have uniform : IsUniform grouping (x :: y :: rest) := by
      cases grouping with
      | false => exact .mixed rfl
      | true => exact .other (others rfl)
    obtain ⟨connective, _ | _⟩ := x <;> exact ⟨uniform, all⟩

end

end OpenGroup

end RecordQuery
