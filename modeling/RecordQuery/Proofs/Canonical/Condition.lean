import RecordQuery.Proofs.Canonical.Call
import RecordQuery.Proofs.Condition.Grammar
import RecordQuery.Proofs.Condition.Settled

namespace RecordQuery

open Lexeme (Spells)
open Statement (SpellsChain SpellsItems SpellsOperand SpellsOperator SpellsTerm)
open Token (Stops)

/-- A predicate that is read back from its notation. -/
structure Predicate.IsWritten (p : Predicate) : Prop where
  field : p.field.IsWritten
  list : p.operator.takesList = true → ∃ items, p.operand = .array items ∧ ∀ v ∈ items, v.IsLiteral
  literal : p.operator.takesList = false → p.operand.IsLiteral

theorem Operator.exists_spells (operator : Operator) :
    ∃ ts, Spells operator.symbol.toList ts ∧ SpellsOperator ts operator := by
  have sign (s : Sign) : Spells s.spelling.toList [.sign s] := .of_piece (Token.isPiece_sign s)
  have word (k : Keyword) : Spells k.spelling.toList [.keyword k] :=
    .of_piece (Token.isPiece_keyword k)
  have words (k l : Keyword) :
      Spells (k.spelling.toList ++ ' ' :: l.spelling.toList) [.keyword k, .keyword l] :=
    (word k).append (word l).blank (Stops.blank _)
  cases operator with
  | equal => exact ⟨_, sign .equal, .single rfl⟩
  | strictEqual => exact ⟨_, sign .strictEqual, .single rfl⟩
  | notEqual => exact ⟨_, sign .notEqual, .single rfl⟩
  | notStrictEqual => exact ⟨_, sign .notStrictEqual, .single rfl⟩
  | less => exact ⟨_, sign .less, .single rfl⟩
  | lessOrEqual => exact ⟨_, sign .lessOrEqual, .single rfl⟩
  | greater => exact ⟨_, sign .greater, .single rfl⟩
  | greaterOrEqual => exact ⟨_, sign .greaterOrEqual, .single rfl⟩
  | inList => exact ⟨_, word .inWord, .single rfl⟩
  | notInList => exact ⟨_, words .not .inWord, .notIn⟩
  | like => exact ⟨_, word .like, .single rfl⟩
  | notLike => exact ⟨_, words .not .like, .notLike⟩
  | is => exact ⟨_, word .is, .is⟩
  | isNot => exact ⟨_, words .is .not, .isNot⟩
  | contains => exact ⟨_, word .contains, .single rfl⟩
  | startsWith => exact ⟨_, word .startsWith, .single rfl⟩
  | endsWith => exact ⟨_, word .endsWith, .single rfl⟩

theorem Statement.SpellsItems.cons {t : Token} {v : Value} {ts : List Token} {items : List Value}
    (literal : literal? t = some v) (spelled : SpellsItems ts items) :
    SpellsItems (t :: .sign .comma :: ts) (v :: items) := by
  induction spelled with
  | one last => exact .more (.one literal) last
  | more first last ih => exact .more ih last

theorem Value.exists_spells_items {items : List Value} (nonempty : items ≠ [])
    (all : ∀ v ∈ items, v.IsLiteral) :
    ∃ ts, Spells (displayItems items) ts ∧ SpellsItems ts items := by
  match items with
  | [v] =>
    obtain ⟨t, piece, literal, -⟩ := exists_literal (all v (List.mem_singleton_self v))
    exact ⟨[t], .of_piece piece, .one literal⟩
  | v :: w :: rest =>
    obtain ⟨first, later⟩ := List.forall_mem_cons.mp all
    obtain ⟨t, piece, literal, -⟩ := exists_literal first
    obtain ⟨ts, spells, spelled⟩ := exists_spells_items (List.cons_ne_nil w rest) later
    exact ⟨t :: .sign .comma :: ts,
      (Spells.of_piece piece).append spells.blank.comma (Stops.comma _), spelled.cons literal⟩

theorem Value.exists_spells_list {operator : Operator} (takes : operator.takesList = true)
    {items : List Value} (all : ∀ v ∈ items, v.IsLiteral) :
    ∃ ts, Spells ('(' :: displayItems items ++ [')']) ts ∧
      SpellsOperand operator ts (.array items) := by
  rcases eq_or_ne items [] with rfl | nonempty
  · exact ⟨_, Spells.nil.closeParen.openParen, .none takes⟩
  · obtain ⟨ts, spells, spelled⟩ := exists_spells_items nonempty all
    have closed := spells.append Spells.nil.closeParen (Stops.paren [])
    exact ⟨_, closed.openParen, .list takes spelled⟩

namespace Predicate

theorem operandChars_of_list {p : Predicate} (takes : p.operator.takesList = true)
    {items : List Value} (operand : p.operand = .array items) :
    p.operandChars = '(' :: Value.displayItems items ++ [')'] := by
  unfold operandChars
  rw [operand]
  cases found : p.operator with
  | inList => rfl
  | notInList => rfl
  | _ =>
    rw [found] at takes
    cases takes

theorem operandChars_of_value {p : Predicate} (plain : p.operator.takesList = false) :
    p.operandChars = p.operand.displayChars := by
  unfold operandChars
  split
  · rename_i found _
    rw [found] at plain
    cases plain
  · rename_i found _
    rw [found] at plain
    cases plain
  · rfl

theorem IsWritten.exists_operand {p : Predicate} (written : p.IsWritten) :
    ∃ ts, Spells p.operandChars ts ∧ SpellsOperand p.operator ts p.operand := by
  by_cases takes : p.operator.takesList = true
  · obtain ⟨items, operand, all⟩ := written.list takes
    rw [operandChars_of_list takes operand, operand]
    exact Value.exists_spells_list takes all
  · have plain : p.operator.takesList = false := by simpa using takes
    obtain ⟨t, piece, literal, -⟩ := Value.exists_literal (written.literal plain)
    rw [operandChars_of_value plain]
    exact ⟨[t], .of_piece piece, .value plain literal⟩

theorem IsWritten.exists_spells {p : Predicate} (written : p.IsWritten) :
    ∃ ts, Spells p.displayChars ts ∧ SpellsTerm ts (.test p) := by
  obtain ⟨os, operator, spelledOperator⟩ := p.operator.exists_spells
  obtain ⟨vs, operand, spelledOperand⟩ := written.exists_operand
  have field := Spells.of_piece written.field.word.isPiece
  rw [String.ofList_toList] at field
  refine ⟨_, (field.append operator.blank (Stops.blank _)).append operand.blank (Stops.blank _),
    ?_⟩
  exact .test written.field.read spelledOperator spelledOperand

end Predicate

namespace Condition

theorem stops_displayRest (xs : List (Connective × Condition)) : Stops (displayRest xs) := by
  cases xs with
  | nil => exact Stops.nil
  | cons link rest => exact Stops.blank _

section

variable {grouping : Bool}

mutual

/-- The notation of a condition spells the condition. -/
theorem exists_spells {c : Condition} (settled : c.IsSettled grouping)
    (written : ∀ p ∈ c.tests, p.IsWritten) :
    ∃ ts, Spells c.displayChars ts ∧ SpellsTerm ts c.fromAnd := by
  match c with
  | .test p => exact (written p (List.mem_singleton_self p)).exists_spells
  | .group children =>
    obtain ⟨uniform, all⟩ := settled
    obtain ⟨ts, spells, spelled⟩ := exists_spells_children uniform.ne_nil all written
    have closed := spells.append Spells.nil.closeParen (Stops.paren [])
    exact ⟨_, closed.openParen, .group spelled⟩

theorem exists_spells_children {xs : List (Connective × Condition)} (nonempty : xs ≠ [])
    (all : AllSettled grouping xs) (written : ∀ p ∈ testsOf xs, p.IsWritten) :
    ∃ ts, Spells (displayChildren xs) ts ∧ SpellsChain ts (fromAndAll xs) := by
  match xs with
  | (_, c) :: rest =>
    obtain ⟨first, later⟩ := List.forall_mem_append.mp written
    obtain ⟨ts, spells, spelled⟩ := exists_spells all.1 first
    obtain ⟨us, spellsRest, chain⟩ := exists_spells_rest all.2 later (.one spelled)
    exact ⟨ts ++ us, spells.append spellsRest (stops_displayRest rest), chain⟩

theorem exists_spells_rest {xs : List (Connective × Condition)} (all : AllSettled grouping xs)
    (written : ∀ p ∈ testsOf xs, p.IsWritten) {front : List Token}
    {chain : List (Connective × Condition)} (spelled : SpellsChain front chain) :
    ∃ ts, Spells (displayRest xs) ts ∧ SpellsChain (front ++ ts) (chain ++ fromAndRest xs) := by
  match xs with
  | [] =>
    rw [fromAndRest, List.append_nil]
    exact ⟨[], .nil, by rwa [List.append_nil]⟩
  | (connective, c) :: rest =>
    obtain ⟨first, later⟩ := List.forall_mem_append.mp written
    obtain ⟨ts, spells, term⟩ := exists_spells all.1 first
    obtain ⟨k, word, joins⟩ : ∃ k : Keyword, connective.symbol = k.spelling ∧
        Statement.connective? (.keyword k) = some connective := by
      cases connective with
      | and => exact ⟨.and, rfl, rfl⟩
      | or => exact ⟨.or, rfl, rfl⟩
      | xor => exact ⟨.xor, rfl, rfl⟩
    obtain ⟨us, spellsRest, longer⟩ := exists_spells_rest all.2 later (spelled.more joins term)
    have symbol : Spells connective.symbol.toList [.keyword k] := by
      rw [word]
      exact .of_piece (Token.isPiece_keyword k)
    have link := symbol.blank.append spells.blank (Stops.blank c.displayChars)
    refine ⟨[.keyword k] ++ ts ++ us, ?_, ?_⟩
    · rw [displayRest]
      exact link.append spellsRest (stops_displayRest rest)
    · rw [fromAndRest]
      simpa [List.append_assoc] using longer

end

end

end Condition

end RecordQuery
