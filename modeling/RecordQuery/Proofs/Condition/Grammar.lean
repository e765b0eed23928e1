import RecordQuery.Proofs.Condition.Meaning
import RecordQuery.Statement.Reading

namespace RecordQuery

/-- Whether the operand of an operator is a list. -/
def Operator.takesList (operator : Operator) : Bool :=
  operator == .inList || operator == .notInList

namespace Statement

open Condition

/-- The tokens of an operator. -/
inductive SpellsOperator : List Token → Operator → Prop
  | single {t operator} : operator? t = some operator → SpellsOperator [t] operator
  | is : SpellsOperator [.keyword .is] .is
  | isNot : SpellsOperator [.keyword .is, .keyword .not] .isNot
  | notIn : SpellsOperator [.keyword .not, .keyword .inWord] .notInList
  | notLike : SpellsOperator [.keyword .not, .keyword .like] .notLike

/-- The tokens of values with commas between them. -/
inductive SpellsItems : List Token → List Value → Prop
  | one {t v} : literal? t = some v → SpellsItems [t] [v]
  | more {ts items t v} : SpellsItems ts items → literal? t = some v →
      SpellsItems (ts ++ [.sign .comma, t]) (items ++ [v])

/-- The tokens of the operand of an operator. A list with a single item needs no parentheses. -/
inductive SpellsOperand (operator : Operator) : List Token → Value → Prop
  | value {t v} : operator.takesList = false → literal? t = some v →
      SpellsOperand operator [t] v
  | bare {t v} : operator.takesList = true → literal? t = some v →
      SpellsOperand operator [t] (.array [v])
  | none : operator.takesList = true →
      SpellsOperand operator [.sign .openParen, .sign .closeParen] (.array [])
  | list {ts items} : operator.takesList = true → SpellsItems ts items →
      SpellsOperand operator (.sign .openParen :: ts ++ [.sign .closeParen]) (.array items)

mutual

/-- The tokens of a term: a test, or a chain of terms in parentheses. -/
inductive SpellsTerm : List Token → Condition → Prop
  | test {text path operatorTokens operator operandTokens operand} :
      FieldPath.forQuery text = .ok path →
      SpellsOperator operatorTokens operator →
      SpellsOperand operator operandTokens operand →
      SpellsTerm (.path text :: operatorTokens ++ operandTokens) (.test ⟨path, operator, operand⟩)
  | group {ts chain} : SpellsChain ts chain →
      SpellsTerm (.sign .openParen :: ts ++ [.sign .closeParen]) (.group chain)

/-- The tokens of a chain, which is one term or more with connectives between them. -/
inductive SpellsChain : List Token → List (Connective × Condition) → Prop
  | one {ts c} : SpellsTerm ts c → SpellsChain ts [(.and, c)]
  | more {ts chain t connective us c} : SpellsChain ts chain → connective? t = some connective →
      SpellsTerm us c → SpellsChain (ts ++ t :: us) (chain ++ [(connective, c)])

end

mutual

/-- A condition that can be written has a predicate in it. -/
theorem SpellsTerm.tests_ne_nil {ts : List Token} {c : Condition} (spelled : SpellsTerm ts c) :
    c.tests ≠ [] := by
  match spelled with
  | .test .. => exact List.cons_ne_nil _ _
  | .group chain => exact chain.testsOf_ne_nil

theorem SpellsChain.testsOf_ne_nil {ts : List Token} {chain : List (Connective × Condition)}
    (spelled : SpellsChain ts chain) : testsOf chain ≠ [] := by
  match spelled with
  | .one term =>
    rw [testsOf, testsOf, List.append_nil]
    exact term.tests_ne_nil
  | .more first _ _ =>
    rw [testsOf_append]
    exact List.append_ne_nil_of_left_ne_nil first.testsOf_ne_nil _

end

end Statement

end RecordQuery
