import RecordQuery.Proofs.Condition.Building
import RecordQuery.Proofs.Condition.Grammar
import RecordQuery.Proofs.Statement.Reader

namespace RecordQuery

open Condition

namespace ConditionDraft

def addAll (d : ConditionDraft) (xs : List (Connective × Condition)) : ConditionDraft :=
  { d with inner := d.inner.addAll d.grouping xs }

theorem add_addAll (d : ConditionDraft) (xs : List (Connective × Condition))
    (connective : Connective) (c : Condition) :
    (d.addAll xs).add connective c = d.addAll (xs ++ [(connective, c)]) := by
  rw [add, addAll, addAll, OpenGroup.addAll_concat]

/-- Parentheses are closed to a single condition, which is added to what stands around them. -/
theorem closeGroup_addAll (d : ConditionDraft) (connective : Connective)
    {xs : List (Connective × Condition)} (nonempty : testsOf xs ≠ []) :
    ((d.openGroup connective).addAll xs).closeGroup =
      .ok (d.add connective
        (.group ((OpenGroup.empty connective).addAll d.grouping xs).close)) := by
  have filled : ((OpenGroup.empty connective).addAll d.grouping xs).close.isEmpty = false := by
    rw [List.isEmpty_eq_false_iff]
    intro empty
    apply nonempty
    rw [← OpenGroup.testsOf_close_addAll d.grouping connective, empty, testsOf]
  have same := OpenGroup.connective_addAll (.empty connective) d.grouping xs
  simp only [closeGroup, addAll, openGroup, filled, same]
  rfl

end ConditionDraft

theorem Draft.conditions_mapConditions (d : Draft) (f : ConditionDraft → ConditionDraft) :
    (d.mapConditions f).conditions = f d.conditions := by
  unfold mapConditions conditions
  cases d.clause <;> simp

theorem Draft.mapConditions_mapConditions (d : Draft) (f h : ConditionDraft → ConditionDraft) :
    (d.mapConditions f).mapConditions h = d.mapConditions fun c => h (f c) := by
  unfold mapConditions
  cases d.clause <;> simp

theorem Draft.mapConditions_const (d : Draft) (f : ConditionDraft → ConditionDraft) :
    (d.mapConditions fun _ => f d.conditions) = d.mapConditions f := by
  unfold mapConditions conditions
  cases d.clause <;> rfl

theorem Draft.closeGroup_addAll (d : Draft) (connective : Connective)
    {xs : List (Connective × Condition)} (nonempty : testsOf xs ≠ []) :
    (d.mapConditions fun c => (c.openGroup connective).addAll xs).closeGroup =
      .ok (d.mapConditions fun c => c.add connective
        (.group ((OpenGroup.empty connective).addAll d.conditions.grouping xs).close)) := by
  have closed := d.conditions.closeGroup_addAll connective nonempty
  rw [closeGroup, conditions_mapConditions, closed]
  simp only [pure, Except.pure, bind, Except.bind, mapConditions_mapConditions]
  exact congrArg Except.ok (d.mapConditions_const fun c => c.add connective
    (.group ((OpenGroup.empty connective).addAll d.conditions.grouping xs).close))

namespace NestedDraft

def mapConditions (n : NestedDraft) (f : ConditionDraft → ConditionDraft) : NestedDraft :=
  { n with inner := n.inner.mapConditions f }

theorem mapConditions_mapConditions (n : NestedDraft) (f h : ConditionDraft → ConditionDraft) :
    (n.mapConditions f).mapConditions h = n.mapConditions fun c => h (f c) := by
  simp only [mapConditions, Draft.mapConditions_mapConditions]

end NestedDraft

namespace Statement

namespace Place

section

variable {p : Place} {l : Lexeme} {head : TestHead} {field : String} {operator : Operator}

theorem meet_condition {connective : Connective} {parens : List Nat}
    (awaiting : p.awaiting = .condition connective parens) :
    p.meet l = p.atCondition l connective parens := by
  simp only [meet, awaiting]

theorem meet_operator {c : Comparison} (awaiting : p.awaiting = .operator c) :
    p.meet l = p.atOperator l c := by
  simp only [meet, awaiting]

theorem meet_condition_path {connective : Connective} {parens : List Nat} {text : String}
    (awaiting : p.awaiting = .condition connective parens) (path : l.token = .path text) :
    p.meet l = p.goOn (.operator (.test ⟨connective, l.start, parens⟩ text)) := by
  rw [meet_condition awaiting, atCondition, path]

theorem meet_operator_is {c : Comparison} (awaiting : p.awaiting = .operator c)
    (word : l.token = .keyword .is) : p.meet l = p.goOn (.afterIs c) := by
  rw [meet_operator awaiting, atOperator, word]

theorem meet_operator_not {c : Comparison} (awaiting : p.awaiting = .operator c)
    (word : l.token = .keyword .not) : p.meet l = p.goOn (.afterNot c l.start) := by
  rw [meet_operator awaiting, atOperator, word]

theorem meet_afterIs (awaiting : p.awaiting = .afterIs (.test head field)) :
    p.meet l =
      if l.token = .keyword .not then p.goOn (.operand head field .isNot)
      else p.atOperand l head field .is := by
  by_cases negated : l.token = .keyword .not
  · simp only [meet, awaiting, negated, if_true, behindOperator]
  · simp only [meet, awaiting, negated, if_false]

theorem meet_operand (awaiting : p.awaiting = .operand head field operator) :
    p.meet l = p.atOperand l head field operator := by
  simp only [meet, awaiting]

theorem meet_listStart (awaiting : p.awaiting = .listStart head field operator) :
    p.meet l =
      if l.token = .sign .closeParen then p.test head field operator (.array [])
      else p.atListItem l head field operator [] := by
  simp only [meet, awaiting]
  split <;> simp_all

theorem meet_listItem {items : List Value}
    (awaiting : p.awaiting = .listItem head field operator items) :
    p.meet l = p.atListItem l head field operator items := by
  simp only [meet, awaiting]

theorem meet_afterNot_in {c : Comparison} {start : Nat} (awaiting : p.awaiting = .afterNot c start)
    (word : l.token = .keyword .inWord) : p.meet l = p.goOn (behindOperator c .notInList) := by
  simp only [meet, awaiting, word]

theorem meet_afterNot_like {c : Comparison} {start : Nat}
    (awaiting : p.awaiting = .afterNot c start) (word : l.token = .keyword .like) :
    p.meet l = p.goOn (behindOperator c .notLike) := by
  simp only [meet, awaiting, word]

theorem meet_afterNot_other {c : Comparison} {start : Nat}
    (awaiting : p.awaiting = .afterNot c start) (word : l.token ≠ .keyword .inWord)
    (like : l.token ≠ .keyword .like) :
    (p.meet l).next =
      .error (.parse start (.unexpected Keyword.not.name (expected (.afterNot c start)))) := by
  simp only [meet, awaiting]
  rfl

theorem meet_list_literal {v : Value} (awaiting : p.awaiting = .list head field operator)
    (literal : literal? l.token = some v) :
    p.meet l = p.test head field operator (.array [v]) := by
  simp only [meet, awaiting]
  split <;> simp_all [literal?]

theorem meet_list_other (awaiting : p.awaiting = .list head field operator)
    (paren : l.token ≠ .sign .openParen) (literal : literal? l.token = none) :
    (p.meet l).next = .error (unexpected l (expected (.list head field operator))) := by
  simp only [meet, awaiting]
  split <;> simp_all [refuse, fail]

theorem meet_list_paren (awaiting : p.awaiting = .list head field operator)
    (paren : l.token = .sign .openParen) :
    p.meet l = p.goOn (.listStart head field operator) := by
  simp only [meet, awaiting, paren]

theorem meet_afterListItem_comma {items : List Value}
    (awaiting : p.awaiting = .afterListItem head field operator items)
    (comma : l.token = .sign .comma) :
    p.meet l = p.goOn (.listItem head field operator items) := by
  simp only [meet, awaiting, comma]

theorem meet_afterListItem_paren {items : List Value}
    (awaiting : p.awaiting = .afterListItem head field operator items)
    (paren : l.token = .sign .closeParen) :
    p.meet l = p.test head field operator (.array items) := by
  simp only [meet, awaiting, paren]

theorem meet_afterListItem_other {items : List Value}
    (awaiting : p.awaiting = .afterListItem head field operator items)
    (comma : l.token ≠ .sign .comma) (paren : l.token ≠ .sign .closeParen) :
    (p.meet l).next =
      .error (unexpected l (expected (.afterListItem head field operator items))) := by
  simp only [meet, awaiting]
  split <;> first | contradiction | rfl

theorem meet_afterCondition {parens : List Nat} (awaiting : p.awaiting = .afterCondition parens) :
    p.meet l = p.afterCondition l parens := by
  simp only [meet, awaiting]

theorem meet_condition_other {connective : Connective} {parens : List Nat}
    (awaiting : p.awaiting = .condition connective parens) (paren : l.token ≠ .sign .openParen)
    (path : ∀ text, l.token ≠ .path text) :
    (p.meet l).next = .error (unexpected l (expected (.condition connective parens))) := by
  rw [meet_condition awaiting]
  unfold atCondition
  split
  · contradiction
  · rename_i text found
    exact absurd found (path text)
  · rfl

theorem meet_afterCondition_other {start : Nat} {parens : List Nat}
    (awaiting : p.awaiting = .afterCondition (start :: parens))
    (joined : connective? l.token = none) (paren : l.token ≠ .sign .closeParen) :
    (p.meet l).next = .error (unexpected l (expected (.afterCondition (start :: parens)))) := by
  simp only [meet_afterCondition awaiting, afterCondition, joined, if_neg paren]
  rfl

theorem atOperator_of_operator? {c : Comparison} (symbol : operator? l.token = some operator) :
    p.atOperator l c = p.goOn (behindOperator c operator) := by
  unfold atOperator
  split
  · simp_all [operator?]
  · simp_all [operator?]
  · simp only [symbol]

theorem atOperator_of_none {c : Comparison} (is : l.token ≠ .keyword .is)
    (negated : l.token ≠ .keyword .not) (symbol : operator? l.token = none) :
    p.atOperator l c = refuse l (expected (.operator c)) := by
  unfold atOperator
  split
  · contradiction
  · contradiction
  · simp only [symbol]

end

end Place

/-- What is awaited behind an operator. Behind IS a NOT may still follow. -/
def AwaitsOperand (head : TestHead) (field : String) (operator : Operator) (awaiting : Awaiting) :
    Prop :=
  awaiting = Place.behindOperator (.test head field) operator ∨
    operator = .is ∧ awaiting = .afterIs (.test head field)

theorem Place.behindOperator_of_list {operator : Operator} (takes : operator.takesList = true)
    (head : TestHead) (field : String) :
    behindOperator (.test head field) operator = .list head field operator := by
  cases operator <;> first | rfl | cases takes

theorem Place.behindOperator_of_value {operator : Operator} (takes : operator.takesList = false)
    (head : TestHead) (field : String) :
    behindOperator (.test head field) operator = .operand head field operator := by
  cases operator <;> first | rfl | cases takes

namespace Reader

/-- Adds a condition and goes on behind it. -/
def add (r : Reader) (connective : Connective) (c : Condition) (parens : List Nat) : Reader :=
  ⟨r.place.await (.afterCondition parens), r.draft.mapConditions fun d => d.add connective c⟩

/-- Adds conditions one after the other and goes on behind them. -/
def addAll (r : Reader) (xs : List (Connective × Condition)) (parens : List Nat) : Reader :=
  ⟨r.place.await (.afterCondition parens), r.draft.mapConditions fun d => d.addAll xs⟩

/-- Whether AND binds tighter in the conditions that are being read. -/
def grouping (r : Reader) : Bool :=
  r.draft.inner.conditions.grouping

section

variable {r r' : Reader} {l : Lexeme} {ls : List Lexeme} {ts : List Token}
variable {head : TestHead} {field : String} {operator : Operator}

theorem read_goOn {awaiting : Awaiting} (met : r.place.meet l = r.place.goOn awaiting)
    (reads : r.read l = some r') : r' = r.await awaiting := by
  rw [read, met] at reads
  exact (Option.some.inj reads).symm

theorem read_step {position : Nat} {s : Step} {awaiting : Awaiting}
    (met : r.place.meet l = r.place.step position s awaiting) (reads : r.read l = some r') :
    r'.place = r.place.await awaiting ∧ r.draft.take s = (r'.draft, none) := by
  rw [read, met] at reads
  obtain ⟨next, takes⟩ := move_some reads
  exact ⟨(Except.ok.inj next).symm, NestedDraft.takeAll_singleton takes⟩

theorem read_test {path : FieldPath} {operand : Value}
    (met : r.place.meet l = r.place.test head field operator operand)
    (parsed : FieldPath.forQuery field = .ok path) (reads : r.read l = some r') :
    r' = r.add head.connective (.test ⟨path, operator, operand⟩) head.parens := by
  have met : r.place.meet l = r.place.step head.start
      (.test head.connective ⟨path, operator, operand⟩) (.afterCondition head.parens) := by
    rw [met, Place.test, parsed]
  obtain ⟨next, takes⟩ := read_step met reads
  obtain ⟨d, added, taken⟩ := NestedDraft.tryInner_ok
    (f := fun d => d.addTest head.connective ⟨path, operator, operand⟩) takes
  obtain ⟨place, draft⟩ := r'
  cases next
  cases taken
  rw [Draft.addTest_ok added]
  rfl

theorem readAll_operator (spelled : SpellsOperator ts operator)
    (tokens : ls.map Lexeme.token = ts) (awaiting : r.place.awaiting = .operator (.test head field))
    (reads : r.readAll ls = some r') :
    ∃ behind, r' = r.await behind ∧ AwaitsOperand head field operator behind := by
  cases spelled with
  | single symbol =>
    obtain ⟨l, rfl, rfl⟩ := List.map_eq_singleton_iff.mp tokens
    have met := (Place.meet_operator awaiting).trans (Place.atOperator_of_operator? symbol)
    exact ⟨_, read_goOn met (readAll_singleton reads), .inl rfl⟩
  | is =>
    obtain ⟨l, rfl, same⟩ := List.map_eq_singleton_iff.mp tokens
    have read := readAll_singleton reads
    exact ⟨_, read_goOn (Place.meet_operator_is awaiting same) read, .inr ⟨rfl, rfl⟩⟩
  | isNot =>
    obtain ⟨l, rest, rfl, same, tokens⟩ := List.map_eq_cons_iff.mp tokens
    obtain ⟨m, rfl, second⟩ := List.map_eq_singleton_iff.mp tokens
    obtain ⟨next, first, reads⟩ := readAll_cons reads
    cases read_goOn (Place.meet_operator_is awaiting same) first
    have negated : (r.await (.afterIs (.test head field))).place.meet m =
        (r.await (.afterIs (.test head field))).place.goOn (.operand head field .isNot) := by
      rw [Place.meet_afterIs rfl, if_pos second]
    have final := read_goOn negated (readAll_singleton reads)
    exact ⟨.operand head field .isNot, final, .inl rfl⟩
  | notIn =>
    obtain ⟨l, rest, rfl, same, tokens⟩ := List.map_eq_cons_iff.mp tokens
    obtain ⟨m, rfl, second⟩ := List.map_eq_singleton_iff.mp tokens
    obtain ⟨next, first, reads⟩ := readAll_cons reads
    cases read_goOn (Place.meet_operator_not awaiting same) first
    have final := read_goOn (Place.meet_afterNot_in rfl second) (readAll_singleton reads)
    exact ⟨.list head field .notInList, final, .inl rfl⟩
  | notLike =>
    obtain ⟨l, rest, rfl, same, tokens⟩ := List.map_eq_cons_iff.mp tokens
    obtain ⟨m, rfl, second⟩ := List.map_eq_singleton_iff.mp tokens
    obtain ⟨next, first, reads⟩ := readAll_cons reads
    cases read_goOn (Place.meet_operator_not awaiting same) first
    have final := read_goOn (Place.meet_afterNot_like rfl second) (readAll_singleton reads)
    exact ⟨.operand head field .notLike, final, .inl rfl⟩

/-- Values with commas between them are gathered one by one. -/
theorem readAll_items {items : List Value} (spelled : SpellsItems ts items)
    (tokens : ls.map Lexeme.token = ts)
    (awaiting : r.place.awaiting = .listStart head field operator)
    (reads : r.readAll ls = some r') :
    r' = r.await (.afterListItem head field operator items) := by
  induction spelled generalizing ls r' with
  | one literal =>
    obtain ⟨l, rfl, rfl⟩ := List.map_eq_singleton_iff.mp tokens
    have opened : l.token ≠ .sign .closeParen := by
      intro close
      rw [close] at literal
      cases literal
    refine read_goOn ?_ (readAll_singleton reads)
    rw [Place.meet_listStart awaiting, if_neg opened, Place.atListItem, literal]
    rfl
  | @more ts items t v first literal ih =>
    obtain ⟨ms, rest, rfl, before, tokens⟩ := List.map_eq_append_iff.mp tokens
    obtain ⟨l, rest, rfl, comma, tokens⟩ := List.map_eq_cons_iff.mp tokens
    obtain ⟨m, rfl, rfl⟩ := List.map_eq_singleton_iff.mp tokens
    obtain ⟨next, reads_before, reads⟩ := readAll_split reads
    cases ih before reads_before
    obtain ⟨next, read, reads⟩ := readAll_cons reads
    cases read_goOn (Place.meet_afterListItem_comma rfl comma) read
    have met {p : Place} (awaiting : p.awaiting = .listItem head field operator items) :
        p.meet m = p.goOn (.afterListItem head field operator (items ++ [v])) := by
      rw [Place.meet_listItem awaiting, Place.atListItem, literal]
    have final := read_goOn (met rfl) (readAll_singleton reads)
    exact final

/-- Behind its operand a test is added. -/
theorem readAll_operand {operand : Value} {path : FieldPath}
    (spelled : SpellsOperand operator ts operand) (tokens : ls.map Lexeme.token = ts)
    (awaits : AwaitsOperand head field operator r.place.awaiting)
    (parsed : FieldPath.forQuery field = .ok path) (reads : r.readAll ls = some r') :
    r' = r.add head.connective (.test ⟨path, operator, operand⟩) head.parens := by
  have listed (takes : operator.takesList = true) :
      r.place.awaiting = .list head field operator := by
    rcases awaits with behind | ⟨is, -⟩
    · rw [behind, Place.behindOperator_of_list takes]
    · rw [is] at takes
      cases takes
  cases spelled with
  | value plain literal =>
    obtain ⟨l, rfl, rfl⟩ := List.map_eq_singleton_iff.mp tokens
    have negated : l.token ≠ .keyword .not := by
      intro word
      rw [word] at literal
      cases literal
    have met : r.place.meet l = r.place.atOperand l head field operator := by
      rcases awaits with behind | ⟨rfl, afterIs⟩
      · exact Place.meet_operand (behind.trans (Place.behindOperator_of_value plain head field))
      · rw [Place.meet_afterIs afterIs, if_neg negated]
    refine read_test ?_ parsed (readAll_singleton reads)
    rw [met, Place.atOperand, literal]
  | bare takes literal =>
    obtain ⟨l, rfl, rfl⟩ := List.map_eq_singleton_iff.mp tokens
    exact read_test (Place.meet_list_literal (listed takes) literal) parsed
      (readAll_singleton reads)
  | none takes =>
    obtain ⟨l, rest, rfl, paren, tokens⟩ := List.map_eq_cons_iff.mp tokens
    obtain ⟨m, rfl, close⟩ := List.map_eq_singleton_iff.mp tokens
    obtain ⟨next, read, reads⟩ := readAll_cons reads
    cases read_goOn (Place.meet_list_paren (listed takes) paren) read
    have met {p : Place} (awaiting : p.awaiting = .listStart head field operator) :
        p.meet m = p.test head field operator (.array []) := by
      rw [Place.meet_listStart awaiting, if_pos close]
    have final := read_test (met rfl) parsed (readAll_singleton reads)
    exact final
  | list takes spelled =>
    obtain ⟨l, rest, rfl, paren, tokens⟩ := List.map_eq_cons_iff.mp tokens
    obtain ⟨ms, rest, rfl, inside, tokens⟩ := List.map_eq_append_iff.mp tokens
    obtain ⟨m, rfl, close⟩ := List.map_eq_singleton_iff.mp tokens
    obtain ⟨next, read, reads⟩ := readAll_cons reads
    cases read_goOn (Place.meet_list_paren (listed takes) paren) read
    obtain ⟨next, reads_inside, reads⟩ := readAll_split reads
    cases readAll_items spelled inside rfl reads_inside
    have final :=
      read_test (Place.meet_afterListItem_paren rfl close) parsed (readAll_singleton reads)
    exact final

theorem read_open {connective : Connective} {parens : List Nat}
    (awaiting : r.place.awaiting = .condition connective parens)
    (paren : l.token = .sign .openParen) (reads : r.read l = some r') :
    r' = ⟨r.place.await (.condition .and (l.start :: parens)),
      r.draft.mapConditions fun d => d.openGroup connective⟩ := by
  have met : r.place.meet l =
      r.place.step l.start (.openGroup connective) (.condition .and (l.start :: parens)) := by
    rw [Place.meet_condition awaiting, Place.atCondition, paren]
  obtain ⟨next, takes⟩ := read_step met reads
  obtain ⟨place, draft⟩ := r'
  cases next
  cases takes
  rfl

theorem read_close {start : Nat} {parens : List Nat}
    (awaiting : r.place.awaiting = .afterCondition (start :: parens))
    (paren : l.token = .sign .closeParen) (reads : r.read l = some r') :
    ∃ d, r.draft.inner.closeGroup = .ok d ∧
      r' = ⟨r.place.await (.afterCondition parens), { r.draft with inner := d }⟩ := by
  have met : r.place.meet l = r.place.step start .closeGroup (.afterCondition parens) := by
    rw [Place.meet_afterCondition awaiting]
    simp only [Place.afterCondition, paren, connective?, if_true]
  obtain ⟨next, takes⟩ := read_step met reads
  obtain ⟨d, closed, taken⟩ := NestedDraft.tryInner_ok (f := Draft.closeGroup) takes
  obtain ⟨place, draft⟩ := r'
  cases next
  cases taken
  exact ⟨d, closed, rfl⟩

theorem read_connective {connective : Connective} {parens : List Nat}
    (awaiting : r.place.awaiting = .afterCondition parens)
    (joined : connective? l.token = some connective) (reads : r.read l = some r') :
    r' = r.await (.condition connective parens) := by
  refine read_goOn ?_ reads
  simp only [Place.meet_afterCondition awaiting, Place.afterCondition, joined]

theorem grouping_mapConditions {p : Place} {f : ConditionDraft → ConditionDraft}
    (same : ∀ d, (f d).grouping = d.grouping) :
    grouping ⟨p, r.draft.mapConditions f⟩ = r.grouping := by
  rw [grouping, NestedDraft.mapConditions, Draft.conditions_mapConditions, same]
  rfl

end

mutual

/-- A term is read to the condition that is built for it. -/
theorem readAll_term {r r' : Reader} {ls : List Lexeme} {ts : List Token} {c : Condition}
    {connective : Connective} {parens : List Nat} (spelled : SpellsTerm ts c)
    (tokens : ls.map Lexeme.token = ts) (awaiting : r.place.awaiting = .condition connective parens)
    (reads : r.readAll ls = some r') :
    r' = r.add connective (c.built r.grouping connective) parens := by
  match spelled with
  | @SpellsTerm.test text _ _ _ _ _ parsed operator operand =>
    obtain ⟨l, rest, rfl, path, tokens⟩ := List.map_eq_cons_iff.mp tokens
    obtain ⟨ms, ns, rfl, first, second⟩ := List.map_eq_append_iff.mp tokens
    obtain ⟨next, read, reads⟩ := readAll_cons reads
    cases read_goOn (Place.meet_condition_path awaiting path) read
    obtain ⟨next, read, reads⟩ := readAll_split reads
    obtain ⟨behind, rfl, awaits⟩ := readAll_operator operator first rfl read
    have final := readAll_operand operand second awaits parsed reads
    exact final
  | @SpellsTerm.group inside chain spelled =>
    obtain ⟨l, rest, rfl, paren, tokens⟩ := List.map_eq_cons_iff.mp tokens
    obtain ⟨ms, ns, rfl, first, second⟩ := List.map_eq_append_iff.mp tokens
    obtain ⟨m, rfl, close⟩ := List.map_eq_singleton_iff.mp second
    obtain ⟨next, read, reads⟩ := readAll_cons reads
    cases read_open awaiting paren read
    obtain ⟨next, read, reads⟩ := readAll_split reads
    cases readAll_chain spelled first rfl read
    obtain ⟨d, closed, rfl⟩ := read_close rfl close (readAll_singleton reads)
    have opened : grouping ⟨r.place.await (.condition .and (l.start :: parens)),
        r.draft.mapConditions fun d => d.openGroup connective⟩ = r.grouping :=
      grouping_mapConditions fun d => rfl
    rw [opened] at closed
    -- Empty parentheses are refused, but what is built has the tests that have been written.
    have written : testsOf (builtAll r.grouping chain) ≠ [] := by
      rw [testsOf_builtAll]
      exact spelled.testsOf_ne_nil
    have same := r.draft.inner.closeGroup_addAll connective written
    rw [addAll, NestedDraft.mapConditions_mapConditions] at closed
    cases closed.symm.trans same
    rfl

/-- A chain is read to the conditions that are built for it. -/
theorem readAll_chain {r r' : Reader} {ls : List Lexeme} {ts : List Token}
    {chain : List (Connective × Condition)} {parens : List Nat} (spelled : SpellsChain ts chain)
    (tokens : ls.map Lexeme.token = ts) (awaiting : r.place.awaiting = .condition .and parens)
    (reads : r.readAll ls = some r') :
    r' = r.addAll (builtAll r.grouping chain) parens := by
  match spelled with
  | .one term => exact readAll_term term tokens awaiting reads
  | @SpellsChain.more _ chain t connective _ c first joined term =>
    obtain ⟨ms, rest, rfl, before, tokens⟩ := List.map_eq_append_iff.mp tokens
    obtain ⟨l, ns, rfl, rfl, after⟩ := List.map_eq_cons_iff.mp tokens
    obtain ⟨next, read, reads⟩ := readAll_split reads
    cases readAll_chain first before awaiting read
    obtain ⟨next, read, reads⟩ := readAll_cons reads
    cases read_connective rfl joined read
    have final := readAll_term term after rfl reads
    have same : grouping ((r.addAll (builtAll r.grouping chain) parens).await
        (.condition connective parens)) = r.grouping :=
      grouping_mapConditions fun d => rfl
    rw [final, same, builtAll_append]
    simp only [add, addAll, await, NestedDraft.mapConditions_mapConditions,
      ConditionDraft.add_addAll]
    rfl

end

end Reader

end Statement

end RecordQuery
