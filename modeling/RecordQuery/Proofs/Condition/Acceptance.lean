import RecordQuery.Proofs.Condition.Reading
import RecordQuery.Proofs.Statement.Draft

namespace RecordQuery.Statement.Reader

section

variable {r : Reader} {l : Lexeme} {ls : List Lexeme} {ts : List Token}
variable {head : TestHead} {field : String} {operator : Operator}

theorem read_of_goOn {awaiting : Awaiting} (met : r.place.meet l = r.place.goOn awaiting) :
    r.read l = some (r.await awaiting) := by
  rw [read, met]
  rfl

theorem read_of_step (position : Nat) (s : Step) {awaiting : Awaiting} {n : NestedDraft}
    (met : r.place.meet l = r.place.step position s awaiting) (takes : r.draft.take s = (n, none)) :
    r.read l = some ⟨r.place.await awaiting, n⟩ := by
  have all : r.draft.takeAll [⟨position, s⟩] = (n, none) := by rw [NestedDraft.takeAll, takes]; rfl
  rw [read, met, move]
  simp only [Place.step, all]

theorem read_of_test {path : FieldPath} {operand : Value}
    (met : r.place.meet l = r.place.test head field operator operand)
    (parsed : FieldPath.forQuery field = .ok path) (settled : r.draft.inner.pending = none) :
    r.read l = some (r.add head.connective (.test ⟨path, operator, operand⟩) head.parens) := by
  rw [Place.test, parsed] at met
  refine read_of_step _ _ met ?_
  have added := Draft.addTest_of_settled settled head.connective ⟨path, operator, operand⟩
  simp only [NestedDraft.take, NestedDraft.tryInner, added, Outcome.ofExcept]
  rfl

theorem readAll_of_read {next : Reader} (reads : r.read l = some next) (rest : List Lexeme) :
    r.readAll (l :: rest) = next.readAll rest := by
  rw [readAll, reads]
  rfl

theorem readAll_of_append {next : Reader} (reads : r.readAll ls = some next) (ms : List Lexeme) :
    r.readAll (ls ++ ms) = next.readAll ms := by
  rw [readAll_append, reads]
  rfl

/-- The tokens of an operator are read whatever is compared. -/
theorem exists_readAll_operator (spelled : SpellsOperator ts operator) (c : Comparison) :
    ∃ behind, (behind = Place.behindOperator c operator ∨ operator = .is ∧ behind = .afterIs c) ∧
      ∀ (r : Reader) (ls : List Lexeme), ls.map Lexeme.token = ts →
        r.place.awaiting = .operator c → r.readAll ls = some (r.await behind) := by
  cases spelled with
  | single symbol =>
    refine ⟨_, .inl rfl, fun r ls tokens awaiting => ?_⟩
    obtain ⟨l, rfl, rfl⟩ := List.map_eq_singleton_iff.mp tokens
    have met := (Place.meet_operator awaiting).trans (Place.atOperator_of_operator? symbol)
    exact readAll_of_read (read_of_goOn met) []
  | is =>
    refine ⟨_, .inr ⟨rfl, rfl⟩, fun r ls tokens awaiting => ?_⟩
    obtain ⟨l, rfl, same⟩ := List.map_eq_singleton_iff.mp tokens
    exact readAll_of_read (read_of_goOn (Place.meet_operator_is awaiting same)) []
  | isNot =>
    refine ⟨_, .inl rfl, fun r ls tokens awaiting => ?_⟩
    obtain ⟨l, rest, rfl, same, tokens⟩ := List.map_eq_cons_iff.mp tokens
    obtain ⟨m, rfl, second⟩ := List.map_eq_singleton_iff.mp tokens
    have first := read_of_goOn (Place.meet_operator_is awaiting same)
    have negated : (r.await (.afterIs c)).place.meet m =
        (r.await (.afterIs c)).place.goOn (Place.behindOperator c .isNot) := by
      simp only [Place.meet, await, Place.await, second]
    exact (readAll_of_read first [m]).trans (readAll_of_read (read_of_goOn negated) [])
  | notIn =>
    refine ⟨_, .inl rfl, fun r ls tokens awaiting => ?_⟩
    obtain ⟨l, rest, rfl, same, tokens⟩ := List.map_eq_cons_iff.mp tokens
    obtain ⟨m, rfl, second⟩ := List.map_eq_singleton_iff.mp tokens
    have first := read_of_goOn (Place.meet_operator_not awaiting same)
    have last := read_of_goOn (r := r.await (.afterNot c l.start))
      (Place.meet_afterNot_in rfl second)
    exact (readAll_of_read first [m]).trans (readAll_of_read last [])
  | notLike =>
    refine ⟨_, .inl rfl, fun r ls tokens awaiting => ?_⟩
    obtain ⟨l, rest, rfl, same, tokens⟩ := List.map_eq_cons_iff.mp tokens
    obtain ⟨m, rfl, second⟩ := List.map_eq_singleton_iff.mp tokens
    have first := read_of_goOn (Place.meet_operator_not awaiting same)
    have last := read_of_goOn (r := r.await (.afterNot c l.start))
      (Place.meet_afterNot_like rfl second)
    exact (readAll_of_read first [m]).trans (readAll_of_read last [])

theorem readAll_of_items {items : List Value} (spelled : SpellsItems ts items)
    (tokens : ls.map Lexeme.token = ts)
    (awaiting : r.place.awaiting = .listStart head field operator) :
    r.readAll ls = some (r.await (.afterListItem head field operator items)) := by
  induction spelled generalizing ls with
  | one literal =>
    obtain ⟨l, rfl, rfl⟩ := List.map_eq_singleton_iff.mp tokens
    have opened : l.token ≠ .sign .closeParen := by
      intro close
      rw [close] at literal
      cases literal
    refine readAll_of_read (read_of_goOn ?_) []
    rw [Place.meet_listStart awaiting, if_neg opened, Place.atListItem, literal]
    rfl
  | @more ts items t v first literal ih =>
    obtain ⟨ms, rest, rfl, before, tokens⟩ := List.map_eq_append_iff.mp tokens
    obtain ⟨l, rest, rfl, comma, tokens⟩ := List.map_eq_cons_iff.mp tokens
    obtain ⟨m, rfl, rfl⟩ := List.map_eq_singleton_iff.mp tokens
    have separated := read_of_goOn
      (r := r.await (.afterListItem head field operator items))
      (Place.meet_afterListItem_comma rfl comma)
    have last : (r.await (.listItem head field operator items)).read m =
        some (r.await (.afterListItem head field operator (items ++ [v]))) := by
      refine read_of_goOn ?_
      rw [Place.meet_listItem rfl, Place.atListItem, literal]
    rw [readAll_of_append (ih before), readAll_of_read separated]
    exact readAll_of_read last []

/-- A test is added behind its operand, as long as no join waits for its keys. -/
theorem readAll_of_operand {operand : Value} {path : FieldPath}
    (spelled : SpellsOperand operator ts operand) (tokens : ls.map Lexeme.token = ts)
    (awaits : AwaitsOperand head field operator r.place.awaiting)
    (parsed : FieldPath.forQuery field = .ok path) (settled : r.draft.inner.pending = none) :
    r.readAll ls =
      some (r.add head.connective (.test ⟨path, operator, operand⟩) head.parens) := by
  have listed (takes : operator.takesList = true) :
      r.place.awaiting = .list head field operator := by
    rcases awaits with behind | ⟨is, -⟩
    · rw [behind, Place.behindOperator_of_list takes]
    · rw [is] at takes
      cases takes
  cases spelled with
  | value plain literal =>
    obtain ⟨l, rfl, rfl⟩ := List.map_eq_singleton_iff.mp tokens
    have negated : l.token ≠ .keyword .not := by
      intro word
      rw [word] at literal
      cases literal
    have met : r.place.meet l = r.place.atOperand l head field operator := by
      rcases awaits with behind | ⟨rfl, afterIs⟩
      · exact Place.meet_operand (behind.trans (Place.behindOperator_of_value plain head field))
      · rw [Place.meet_afterIs afterIs, if_neg negated]
    rw [Place.atOperand, literal] at met
    exact readAll_of_read (read_of_test met parsed settled) []
  | bare takes literal =>
    obtain ⟨l, rfl, rfl⟩ := List.map_eq_singleton_iff.mp tokens
    have met := Place.meet_list_literal (listed takes) literal
    exact readAll_of_read (read_of_test met parsed settled) []
  | none takes =>
    obtain ⟨l, rest, rfl, paren, tokens⟩ := List.map_eq_cons_iff.mp tokens
    obtain ⟨m, rfl, close⟩ := List.map_eq_singleton_iff.mp tokens
    have first := read_of_goOn (Place.meet_list_paren (listed takes) paren)
    have met {p : Place} (awaiting : p.awaiting = .listStart head field operator) :
        p.meet m = p.test head field operator (.array []) := by
      rw [Place.meet_listStart awaiting, if_pos close]
    have last := read_of_test (r := r.await (.listStart head field operator)) (met rfl) parsed
      settled
    rw [readAll_of_read first]
    exact readAll_of_read last []
  | @list ts items takes spelled =>
    obtain ⟨l, rest, rfl, paren, tokens⟩ := List.map_eq_cons_iff.mp tokens
    obtain ⟨ms, rest, rfl, inside, tokens⟩ := List.map_eq_append_iff.mp tokens
    obtain ⟨m, rfl, close⟩ := List.map_eq_singleton_iff.mp tokens
    have first := read_of_goOn (Place.meet_list_paren (listed takes) paren)
    have gathered := readAll_of_items (r := r.await (.listStart head field operator)) spelled inside
      rfl
    have last := read_of_test (Place.meet_afterListItem_paren rfl close) parsed settled
      (r := r.await (.afterListItem head field operator items))
    rw [readAll_of_read first, readAll_of_append gathered]
    exact readAll_of_read last []

theorem read_of_open {connective : Connective} {parens : List Nat}
    (awaiting : r.place.awaiting = .condition connective parens)
    (paren : l.token = .sign .openParen) :
    r.read l = some ⟨r.place.await (.condition .and (l.start :: parens)),
      r.draft.mapConditions fun d => d.openGroup connective⟩ := by
  have met : r.place.meet l =
      r.place.step l.start (.openGroup connective) (.condition .and (l.start :: parens)) := by
    rw [Place.meet_condition awaiting, Place.atCondition, paren]
  exact read_of_step _ _ met rfl

theorem read_of_close {start : Nat} {parens : List Nat} {d : Draft}
    (awaiting : r.place.awaiting = .afterCondition (start :: parens))
    (paren : l.token = .sign .closeParen) (closes : r.draft.inner.closeGroup = .ok d) :
    r.read l =
      some ⟨r.place.await (.afterCondition parens), { r.draft with inner := d }⟩ := by
  have met : r.place.meet l = r.place.step start .closeGroup (.afterCondition parens) := by
    rw [Place.meet_afterCondition awaiting]
    simp only [Place.afterCondition, paren, connective?, if_true]
  refine read_of_step _ _ met ?_
  simp only [NestedDraft.take, NestedDraft.tryInner, closes, Outcome.ofExcept]

theorem read_of_connective {connective : Connective} {parens : List Nat}
    (awaiting : r.place.awaiting = .afterCondition parens)
    (joined : connective? l.token = some connective) :
    r.read l = some (r.await (.condition connective parens)) := by
  refine read_of_goOn ?_
  simp only [Place.meet_afterCondition awaiting, Place.afterCondition, joined]

theorem pending_mapConditions (d : Draft) (f : ConditionDraft → ConditionDraft) :
    (d.mapConditions f).pending = d.pending := by
  unfold Draft.mapConditions
  cases d.clause <;> rfl

end

open Condition

mutual

/-- A term is accepted, as long as no join waits for its keys. -/
theorem readAll_of_term {r : Reader} {ls : List Lexeme} {ts : List Token} {c : Condition}
    {connective : Connective} {parens : List Nat} (spelled : SpellsTerm ts c)
    (tokens : ls.map Lexeme.token = ts) (awaiting : r.place.awaiting = .condition connective parens)
    (settled : r.draft.inner.pending = none) :
    r.readAll ls = some (r.add connective (c.built r.grouping connective) parens) := by
  match spelled with
  | @SpellsTerm.test text _ _ _ _ _ parsed operator operand =>
    obtain ⟨l, rest, rfl, path, tokens⟩ := List.map_eq_cons_iff.mp tokens
    obtain ⟨ms, ns, rfl, first, second⟩ := List.map_eq_append_iff.mp tokens
    have field := read_of_goOn (Place.meet_condition_path awaiting path)
    let c : Comparison := .test ⟨connective, l.start, parens⟩ text
    obtain ⟨behind, awaits, reads⟩ := exists_readAll_operator operator c
    have middle := reads (r.await (.operator c)) ms first rfl
    rw [readAll_of_read field, readAll_of_append middle]
    exact readAll_of_operand operand second awaits parsed settled
      (r := (r.await (.operator (.test ⟨connective, l.start, parens⟩ text))).await behind)
  | @SpellsTerm.group inside chain spelled =>
    obtain ⟨l, rest, rfl, paren, tokens⟩ := List.map_eq_cons_iff.mp tokens
    obtain ⟨ms, ns, rfl, first, second⟩ := List.map_eq_append_iff.mp tokens
    obtain ⟨m, rfl, close⟩ := List.map_eq_singleton_iff.mp second
    rw [readAll_of_read (read_of_open awaiting paren)]
    have chained := readAll_of_chain (r := ⟨r.place.await (.condition .and (l.start :: parens)),
      r.draft.mapConditions fun d => d.openGroup connective⟩) spelled first rfl
      ((pending_mapConditions ..).trans settled)
    have opened : grouping ⟨r.place.await (.condition .and (l.start :: parens)),
        r.draft.mapConditions fun d => d.openGroup connective⟩ = r.grouping :=
      grouping_mapConditions fun d => rfl
    rw [opened, addAll, NestedDraft.mapConditions_mapConditions] at chained
    -- Empty parentheses leave nothing behind, but what is built has the tests that are written.
    have written : testsOf (builtAll r.grouping chain) ≠ [] := by
      rw [testsOf_builtAll]
      exact spelled.testsOf_ne_nil
    have closed := r.draft.inner.closeGroup_addAll connective written
    rw [readAll_of_append chained]
    exact readAll_of_read (read_of_close rfl close closed) []

/-- A chain is accepted, as long as no join waits for its keys. -/
theorem readAll_of_chain {r : Reader} {ls : List Lexeme} {ts : List Token}
    {chain : List (Connective × Condition)} {parens : List Nat} (spelled : SpellsChain ts chain)
    (tokens : ls.map Lexeme.token = ts) (awaiting : r.place.awaiting = .condition .and parens)
    (settled : r.draft.inner.pending = none) :
    r.readAll ls = some (r.addAll (builtAll r.grouping chain) parens) := by
  match spelled with
  | .one term => exact readAll_of_term term tokens awaiting settled
  | @SpellsChain.more _ chain t connective _ c first joined term =>
    obtain ⟨ms, rest, rfl, before, tokens⟩ := List.map_eq_append_iff.mp tokens
    obtain ⟨l, ns, rfl, rfl, after⟩ := List.map_eq_cons_iff.mp tokens
    have chained := readAll_of_chain first before awaiting settled
    have link := read_of_connective (r := r.addAll (builtAll r.grouping chain) parens) rfl joined
    have last := readAll_of_term term after rfl ((pending_mapConditions ..).trans settled)
      (r := (r.addAll (builtAll r.grouping chain) parens).await (.condition connective parens))
    have same : grouping ((r.addAll (builtAll r.grouping chain) parens).await
        (.condition connective parens)) = r.grouping :=
      grouping_mapConditions fun d => rfl
    rw [readAll_of_append chained, readAll_of_read link, last, same, builtAll_append]
    simp only [add, addAll, await, NestedDraft.mapConditions_mapConditions,
      ConditionDraft.add_addAll]
    rfl

end

end RecordQuery.Statement.Reader
