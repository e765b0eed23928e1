import RecordQuery.Proofs.Statement.Meets
import RecordQuery.Proofs.Statement.Reader

namespace RecordQuery

/-- Whether a step leaves alone the conditions, the clause they are added to, and the queries
around the innermost one. -/
def Step.isPlain : Step → Bool
  | .clause _ => false
  | .openGroup _ => false
  | .closeGroup => false
  | .test .. => false
  | .beginRight => false
  | .join .. => false
  | _ => true

/-- Whether a step changes the conditions of the clause that is being written. -/
def Step.isCondition : Step → Bool
  | .openGroup _ => true
  | .closeGroup => true
  | .test .. => true
  | _ => false

/-- The clause of a statement that conditions are written in. -/
def ConditionClause.clause : ConditionClause → Clause
  | .filter => .filter
  | .having => .having

namespace Statement

/-- What a reader is in the middle of: the conditions of a clause, the keys of a join behind its
right query, or anything else. -/
inductive Region where
  | clauses
  | conditions
  | keys
  deriving DecidableEq

def Comparison.region : Comparison → Region
  | .keys .. => .keys
  | .test .. => .conditions

def Awaiting.region : Awaiting → Region
  | .afterRight _ => .keys
  | .joinAlias _ => .keys
  | .on .. => .keys
  | .leftKey .. => .keys
  | .rightKey .. => .keys
  | .operator c => c.region
  | .afterIs c => c.region
  | .afterNot c _ => c.region
  | .condition .. => .conditions
  | .operand .. => .conditions
  | .list .. => .conditions
  | .listStart .. => .conditions
  | .listItem .. => .conditions
  | .afterListItem .. => .conditions
  | .afterCondition _ => .conditions
  | _ => .clauses

namespace Place

/-- What a lexeme may lead to. -/
inductive Leads (p : Place) : List PlacedStep → Place → Prop
  | goesOn {steps : List PlacedStep} {clauses : List Clause} {awaiting : Awaiting} :
      p.awaiting.region ≠ .keys → awaiting.region = .clauses → (∀ s ∈ steps, s.step.isPlain) →
      p.clauses ⊆ clauses → (∀ c ∈ clauses, c ∈ p.clauses ∨ ∀ d : ConditionClause, c ≠ d.clause) →
      Leads p steps ⟨clauses, p.around, awaiting⟩
  | opens {steps : List PlacedStep} {position : Nat} (c : ConditionClause) :
      p.awaiting.region ≠ .keys → (∀ s ∈ steps, s.step.isPlain) → c.clause ∉ p.clauses →
      Leads p (steps ++ [⟨position, .clause c⟩])
        ⟨c.clause :: p.clauses, p.around, .condition .and []⟩
  | conditions {steps : List PlacedStep} {awaiting : Awaiting} :
      p.awaiting.region = .conditions → awaiting.region = .conditions →
      (∀ s ∈ steps, s.step.isCondition) → Leads p steps (p.await awaiting)
  | beginsRight {position : Nat} {head : JoinHead} :
      p.awaiting.region = .clauses →
      Leads p [⟨position, .beginRight⟩] ⟨[], ⟨p.clauses, head⟩ :: p.around, .clause⟩
  | endsRight {steps : List PlacedStep} {outer : AroundQuery} {around : List AroundQuery} :
      p.awaiting.region ≠ .keys → (∀ s ∈ steps, s.step.isPlain) → p.around = outer :: around →
      Leads p steps ⟨outer.clauses, around, .afterRight outer.head⟩
  | keys {awaiting : Awaiting} :
      p.awaiting.region = .keys → awaiting.region = .keys → Leads p [] (p.await awaiting)
  | joins {position : Nat} {kind : JoinKind} {aliasName : Option String} {left right : String}
      {operator : Operator} :
      p.awaiting.region = .keys →
      Leads p [⟨position, .join kind aliasName left operator right⟩] (p.await .clause)

theorem begin_join (p : Place) (l : Lexeme) (keyword : Keyword) :
    ∃ awaiting : Awaiting, awaiting.region = .clauses ∧
      p.begin l keyword .join = p.goOn awaiting := by
  simp only [begin]
  split <;> exact ⟨_, rfl, rfl⟩

section

variable {p next : Place} {l : Lexeme} {before : List PlacedStep}

theorem outside_of_clauses (inside : p.awaiting.region = .clauses) :
    p.awaiting.region ≠ .keys := by
  rw [inside]
  decide

theorem Leads.await {awaiting : Awaiting} (outside : p.awaiting.region ≠ .keys)
    (heads : awaiting.region = .clauses) (plain : ∀ s ∈ before, s.step.isPlain) :
    Leads p before (p.await awaiting) :=
  .goesOn outside heads plain (fun _ member => member) fun _ member => .inl member

theorem leads_begin {c : Clause} {keyword : Keyword} (outside : p.awaiting.region ≠ .keys)
    (plain : ∀ s ∈ before, s.step.isPlain) (fresh : c ≠ .join → c ∉ p.clauses)
    (goes : (begin { p with clauses := c :: p.clauses } l keyword c).next = .ok next) :
    Leads p (before ++ (begin { p with clauses := c :: p.clauses } l keyword c).steps) next := by
  have other {awaiting : Awaiting} (heads : awaiting.region = .clauses)
      (apart : ∀ d : ConditionClause, c ≠ d.clause) :
      Leads p (before ++ []) ⟨c :: p.clauses, p.around, awaiting⟩ := by
    rw [List.append_nil]
    refine .goesOn outside heads plain (List.subset_cons_self _ _) fun b member => ?_
    rcases List.mem_cons.mp member with rfl | earlier
    · exact .inr apart
    · exact .inl earlier
  cases c with
  | filter =>
    cases goes
    exact .opens .filter outside plain (fresh (by decide))
  | having =>
    cases goes
    exact .opens .having outside plain (fresh (by decide))
  | join =>
    obtain ⟨awaiting, heads, same⟩ := begin_join { p with clauses := .join :: p.clauses } l keyword
    rw [same] at goes ⊢
    cases goes
    exact other heads fun d => by cases d <;> decide
  | _ =>
    cases goes
    exact other rfl fun d => by cases d <;> decide

/-- A clause that is not refused begins, and it has not been met before unless it is a join. -/
theorem meetClause_ok {c : Clause} {keyword : Keyword}
    (goes : (p.meetClause l keyword c).next = .ok next) :
    (c ≠ .join → c ∉ p.clauses) ∧
      p.meetClause l keyword c = begin { p with clauses := c :: p.clauses } l keyword c := by
  unfold meetClause at goes ⊢
  by_cases twice : c ≠ .join ∧ p.clauses.contains c
  · rw [if_pos twice] at goes
    cases goes
  · rw [if_neg twice] at goes ⊢
    refine ⟨by simpa using twice, ?_⟩
    dsimp only at goes ⊢
    split
    · rfl
    · rename_i last earlier found
      by_cases early : c.rank < last.rank
      · rw [found] at goes
        simp only [if_pos early] at goes
        cases goes
      · rw [if_neg early]

/-- At a clause keyword the next clause begins, and at a parenthesis the query ends. -/
theorem leads_atClause (before : List PlacedStep) (outside : p.awaiting.region ≠ .keys)
    (plain : ∀ s ∈ before, s.step.isPlain) (goes : (p.atClause l).next = .ok next) :
    Leads p (before ++ (p.atClause l).steps) next := by
  generalize met : p.atClause l = m at goes ⊢
  unfold atClause at met
  split at met
  · rename_i k word
    cases clause : Clause.ofKeyword? k with
    | none =>
      rw [clause] at met
      subst met
      cases goes
    | some c =>
      simp only [clause] at met
      subst met
      obtain ⟨fresh, same⟩ := meetClause_ok goes
      rw [same] at goes ⊢
      exact leads_begin outside plain fresh goes
  · rename_i outer around close nested
    subst met
    cases goes
    rw [List.append_nil]
    exact .endsRight outside plain nested
  · subst met
    cases goes

theorem leads_goOn {awaiting : Awaiting} (outside : p.awaiting.region = .clauses)
    (heads : awaiting.region = .clauses) (goes : (p.goOn awaiting).next = .ok next) :
    Leads p (p.goOn awaiting).steps next := by
  cases goes
  exact .await (outside_of_clauses outside) heads fun s member => nomatch member

theorem leads_step {position : Nat} {s : Step} {awaiting : Awaiting}
    (outside : p.awaiting.region = .clauses) (heads : awaiting.region = .clauses)
    (plain : s.isPlain) (goes : (p.step position s awaiting).next = .ok next) :
    Leads p (p.step position s awaiting).steps next := by
  cases goes
  refine .await (outside_of_clauses outside) heads fun t member => ?_
  rw [List.mem_singleton.mp member]
  exact plain

theorem leads_atComma (before : List PlacedStep) {awaiting : Awaiting}
    (outside : p.awaiting.region = .clauses)
    (plain : ∀ s ∈ before, s.step.isPlain) (heads : awaiting.region = .clauses)
    (goes : (p.atComma l awaiting).next = .ok next) :
    Leads p (before ++ (p.atComma l awaiting).steps) next := by
  have outside := outside_of_clauses outside
  unfold atComma at goes ⊢
  by_cases comma : l.token = .sign .comma
  · rw [if_pos comma] at goes ⊢
    cases goes
    simpa [goOn] using Leads.await outside heads plain
  · rw [if_neg comma] at goes ⊢
    exact leads_atClause before outside plain goes

theorem leads_atItem (outside : p.awaiting.region = .clauses)
    (goes : (p.atItem l).next = .ok next) : Leads p (p.atItem l).steps next := by
  generalize met : p.atItem l = m at goes ⊢
  unfold atItem at met
  split at met
  · subst met
    exact leads_step outside rfl rfl goes
  · subst met
    exact leads_step outside rfl rfl goes
  · split at met
    · subst met
      exact leads_step outside rfl rfl goes
    · subst met
      cases goes
  · subst met
    cases goes

theorem leads_atSource (outside : p.awaiting.region = .clauses)
    (goes : (p.atSource l).next = .ok next) : Leads p (p.atSource l).steps next := by
  generalize met : p.atSource l = m at goes ⊢
  unfold atSource at met
  split at met
  · subst met
    exact leads_step outside rfl rfl goes
  · subst met
    exact leads_step outside rfl rfl goes
  · subst met
    exact leads_step outside rfl rfl goes
  · subst met
    exact leads_step outside rfl rfl goes
  · split at met
    · subst met
      exact leads_step outside rfl rfl goes
    · subst met
      cases goes
  · subst met
    cases goes

theorem leads_afterOrderKey {start : Nat} {field : String} (outside : p.awaiting.region = .clauses)
    (goes : (p.afterOrderKey l start field).next = .ok next) :
    Leads p (p.afterOrderKey l start field).steps next := by
  unfold afterOrderKey at goes ⊢
  cases direction : direction? l.token with
  | some direction =>
    simp only [direction] at goes ⊢
    exact leads_step outside rfl rfl goes
  | none =>
    simp only [direction] at goes ⊢
    have plain : ∀ s ∈ [PlacedStep.mk start (.orderBy field .asc)], s.step.isPlain := by
      intro s member
      rw [List.mem_singleton.mp member]
      rfl
    exact leads_atComma _ outside plain rfl goes

theorem leads_keys {awaiting : Awaiting} (inside : p.awaiting.region = .keys)
    (heads : awaiting.region = .keys) (goes : (p.goOn awaiting).next = .ok next) :
    Leads p (p.goOn awaiting).steps next := by
  cases goes
  exact .keys inside heads

theorem leads_atRightKey {head : JoinHead} {aliasName : Option String} {left : String}
    {operator : Operator} (inside : p.awaiting.region = .keys)
    (goes : (p.atRightKey l head aliasName left operator).next = .ok next) :
    Leads p (p.atRightKey l head aliasName left operator).steps next := by
  generalize met : p.atRightKey l head aliasName left operator = m at goes ⊢
  unfold atRightKey at met
  split at met
  · subst met
    cases goes
    exact .joins inside
  · subst met
    cases goes

theorem leads_condition {awaiting : Awaiting} (inside : p.awaiting.region = .conditions)
    (heads : awaiting.region = .conditions) (goes : (p.goOn awaiting).next = .ok next) :
    Leads p (p.goOn awaiting).steps next := by
  cases goes
  exact .conditions inside heads fun s member => nomatch member

theorem leads_conditionStep {position : Nat} {s : Step} {awaiting : Awaiting}
    (inside : p.awaiting.region = .conditions) (heads : awaiting.region = .conditions)
    (condition : s.isCondition) (goes : (p.step position s awaiting).next = .ok next) :
    Leads p (p.step position s awaiting).steps next := by
  cases goes
  refine .conditions inside heads fun t member => ?_
  rw [List.mem_singleton.mp member]
  exact condition

theorem region_behindOperator (c : Comparison) (operator : Operator) :
    (behindOperator c operator).region = c.region := by
  unfold behindOperator
  split <;> rfl

/-- An operator and what stands behind it belong to the same keys or to the same test. -/
theorem leads_comparison {c : Comparison} {awaiting : Awaiting}
    (inside : p.awaiting.region = c.region) (heads : awaiting.region = c.region)
    (goes : (p.goOn awaiting).next = .ok next) : Leads p (p.goOn awaiting).steps next := by
  cases c with
  | keys => exact leads_keys inside heads goes
  | test => exact leads_condition inside heads goes

theorem leads_atOperator {c : Comparison} (inside : p.awaiting.region = c.region)
    (goes : (p.atOperator l c).next = .ok next) : Leads p (p.atOperator l c).steps next := by
  generalize met : p.atOperator l c = m at goes ⊢
  unfold atOperator at met
  split at met
  · subst met
    exact leads_comparison inside rfl goes
  · subst met
    exact leads_comparison inside rfl goes
  · split at met
    · subst met
      exact leads_comparison inside (region_behindOperator ..) goes
    · subst met
      cases goes

section

variable {head : TestHead} {field : String} {operator : Operator}

theorem leads_test {operand : Value} (inside : p.awaiting.region = .conditions)
    (goes : (p.test head field operator operand).next = .ok next) :
    Leads p (p.test head field operator operand).steps next := by
  generalize met : p.test head field operator operand = m at goes ⊢
  unfold test at met
  split at met
  · subst met
    exact leads_conditionStep inside rfl rfl goes
  · subst met
    cases goes

theorem leads_atOperand (inside : p.awaiting.region = .conditions)
    (goes : (p.atOperand l head field operator).next = .ok next) :
    Leads p (p.atOperand l head field operator).steps next := by
  generalize met : p.atOperand l head field operator = m at goes ⊢
  unfold atOperand at met
  split at met
  · subst met
    exact leads_test inside goes
  · subst met
    cases goes

theorem leads_atListItem {items : List Value} (inside : p.awaiting.region = .conditions)
    (goes : (p.atListItem l head field operator items).next = .ok next) :
    Leads p (p.atListItem l head field operator items).steps next := by
  generalize met : p.atListItem l head field operator items = m at goes ⊢
  unfold atListItem at met
  split at met
  · subst met
    exact leads_condition inside rfl goes
  · subst met
    cases goes

end

theorem leads_atCondition {connective : Connective} {parens : List Nat}
    (inside : p.awaiting.region = .conditions)
    (goes : (p.atCondition l connective parens).next = .ok next) :
    Leads p (p.atCondition l connective parens).steps next := by
  generalize met : p.atCondition l connective parens = m at goes ⊢
  unfold atCondition at met
  split at met
  · subst met
    exact leads_conditionStep inside rfl rfl goes
  · subst met
    exact leads_condition inside rfl goes
  · subst met
    cases goes

theorem leads_afterCondition {parens : List Nat} (inside : p.awaiting.region = .conditions)
    (goes : (p.afterCondition l parens).next = .ok next) :
    Leads p (p.afterCondition l parens).steps next := by
  generalize met : p.afterCondition l parens = m at goes ⊢
  unfold afterCondition at met
  split at met
  · subst met
    exact leads_condition inside rfl goes
  · subst met
    have outside : p.awaiting.region ≠ .keys := by rw [inside]; decide
    simpa using leads_atClause [] outside (fun s member => nomatch member) goes
  · split at met
    · subst met
      exact leads_conditionStep inside rfl rfl goes
    · subst met
      cases goes

/-- Whatever a reader is about to meet, a lexeme leads it on in one of these ways. -/
theorem leads_meet (goes : (p.meet l).next = .ok next) : Leads p (p.meet l).steps next := by
  have region {awaiting : Awaiting} (same : p.awaiting = awaiting) :
      p.awaiting.region = awaiting.region := congrArg _ same
  have meets := p.meets_meet l
  generalize p.meet l = m at goes meets ⊢
  cases meets with
  | clause found | pastSource found _ =>
    exact leads_atClause [] (outside_of_clauses (region found)) (fun s member => nomatch member)
      goes
  | firstItem found | item found => exact leads_atItem (region found) goes
  | afterItem found | afterItemAlias found | afterGroupKey found | afterDirection found =>
    exact leads_atComma [] (region found) (fun s member => nomatch member) rfl goes
  | distinct found _ | itemAlias found _ | groupKey found _ =>
    exact leads_step (region found) rfl rfl goes
  | asItem found _ | inSource found _ | outer found _ | join found _ | groupBy found _
  | orderBy found _ | orderKey found _ => exact leads_goOn (region found) rfl goes
  | source found => exact leads_atSource (region found) goes
  | afterOrderKey found => exact leads_afterOrderKey (region found) goes
  | count found _ _ =>
    refine leads_step (region found) rfl ?_ goes
    split <;> rfl
  | right found _ =>
    cases goes
    exact .beginsRight (region found)
  | asRight found _ | onKeys found _ | joinAlias found _ | onAliased found _ | leftKey found _ =>
    exact leads_keys (region found) rfl goes
  | rightKey found | isKey found => exact leads_atRightKey (region found) goes
  | operator found => exact leads_atOperator (region found) goes
  | isNot found _ | notIn found _ | notLike found _ =>
    exact leads_comparison (region found) (region_behindOperator ..) goes
  | condition found => exact leads_atCondition (region found) goes
  | isOperand found | operand found => exact leads_atOperand (region found) goes
  | opensList found _ | afterListItem found _ => exact leads_condition (region found) rfl goes
  | soleItem found _ | emptyList found _ | closesList found _ =>
    exact leads_test (region found) goes
  | firstListItem found | listItem found => exact leads_atListItem (region found) goes
  | afterCondition found => exact leads_afterCondition (region found) goes
  | notCount | notAlone | refused => cases goes

end

end Place

end Statement

end RecordQuery
