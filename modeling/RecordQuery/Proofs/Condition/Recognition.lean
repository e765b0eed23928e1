import RecordQuery.Proofs.Condition.Reading

namespace RecordQuery.Statement.Reader

section

variable {r next : Reader} {l : Lexeme}

theorem read_refused {e : QueryError} (refused : (r.place.meet l).next = .error e) :
    r.read l ≠ some next := by
  intro reads
  cases refused.symm.trans (move_some reads).1

end

section

variable {r : Reader} {l : Lexeme} {rest : List Lexeme} {head : TestHead} {field : String}
variable {operator : Operator}

/-- A test is only finished if its field is a path. -/
theorem exists_path {next : Reader} {operand : Value}
    (met : r.place.meet l = r.place.test head field operator operand)
    (reads : r.read l = some next) : ∃ path, FieldPath.forQuery field = .ok path := by
  cases parsed : FieldPath.forQuery field with
  | ok path => exact ⟨path, rfl⟩
  | error fault =>
    refine absurd reads (read_refused (e := .parse head.start (.build fault)) ?_)
    rw [met, Place.test, parsed]
    rfl

/-- What stands at the place of a value is one. -/
theorem exists_literal {next : Reader}
    (met : r.place.meet l = r.place.atOperand l head field operator)
    (reads : r.read l = some next) :
    ∃ v path, literal? l.token = some v ∧ FieldPath.forQuery field = .ok path := by
  cases literal : literal? l.token with
  | none =>
    refine absurd reads
      (read_refused (e := unexpected l (expected (.operand head field operator))) ?_)
    rw [met, Place.atOperand, literal]
    rfl
  | some v =>
    rw [Place.atOperand, literal] at met
    obtain ⟨path, parsed⟩ := exists_path met reads
    exact ⟨v, path, rfl, parsed⟩

/-- What stands at the place of an item is one. -/
theorem exists_item {next : Reader} {items : List Value}
    (met : r.place.meet l = r.place.atListItem l head field operator items)
    (reads : r.read l = some next) :
    ∃ v, literal? l.token = some v ∧
      next = r.await (.afterListItem head field operator (items ++ [v])) := by
  cases literal : literal? l.token with
  | none =>
    refine absurd reads
      (read_refused (e := unexpected l (expected (.listItem head field operator items))) ?_)
    rw [met, Place.atListItem, literal]
    rfl
  | some v =>
    rw [Place.atListItem, literal] at met
    exact ⟨v, rfl, read_goOn met reads⟩

end

/-- Lexemes that begin with a piece which is read to `next` and go on with what is accepted
there. -/
structure Split (n : NestedDraft) (r : Reader) (rest ls behind : List Lexeme) (next : Reader) :
    Prop where
  parts : rest = ls ++ behind
  reads : r.readAll ls = some next
  ends : next.EndsIn behind n

theorem Split.single {r next : Reader} {l : Lexeme} {rest : List Lexeme} {n : NestedDraft}
    (read : r.read l = some next) (ends : next.EndsIn rest n) :
    Split n r (l :: rest) [l] rest next := by
  refine ⟨rfl, ?_, ends⟩
  rw [readAll, read]
  rfl

theorem Split.trans {r next last : Reader} {rest ls ms middle behind : List Lexeme}
    {n : NestedDraft}
    (first : Split n r rest ls middle next) (second : Split n next middle ms behind last) :
    Split n r rest (ls ++ ms) behind last := by
  refine ⟨?_, ?_, second.ends⟩
  · rw [first.parts, second.parts, List.append_assoc]
  · rw [readAll_append, first.reads]
    exact second.reads

/-- Items go on up to the closing parenthesis. -/
theorem exists_items {n : NestedDraft} {r : Reader} {rest : List Lexeme} {head : TestHead}
    {field : String} {operator : Operator} {ts : List Token} {items : List Value}
    (spelled : SpellsItems ts items)
    (awaiting : r.place.awaiting = .afterListItem head field operator items)
    (ends : r.EndsIn rest n) :
    ∃ ls us all path behind next, Split n r rest ls behind next ∧
      ls.map Lexeme.token = us ++ [.sign .closeParen] ∧ SpellsItems (ts ++ us) all ∧
      FieldPath.forQuery field = .ok path := by
  obtain ⟨l, rest, next, rfl, read, ends⟩ := ends.exists_cons fun stop => by
    simp only [Place.finish, awaiting, Option.isSome_some]
  by_cases close : l.token = .sign .closeParen
  · obtain ⟨path, parsed⟩ := exists_path (Place.meet_afterListItem_paren awaiting close) read
    refine ⟨[l], [], items, path, rest, next, .single read ends, ?_, ?_, parsed⟩
    · rw [List.map_singleton, close, List.nil_append]
    · rw [List.append_nil]
      exact spelled
  by_cases comma : l.token = .sign .comma
  · cases read_goOn (Place.meet_afterListItem_comma awaiting comma) read
    have first := Split.single read ends
    obtain ⟨m, rest, next, rfl, read, ends⟩ := ends.exists_cons fun _ => rfl
    obtain ⟨v, literal, rfl⟩ := exists_item (Place.meet_listItem rfl) read
    obtain ⟨ls, us, all, path, behind, last, split, tokens, spelled, parsed⟩ :=
      exists_items (spelled.more literal) rfl ends
    refine ⟨_, .sign .comma :: m.token :: us, all, path, behind, last,
      (first.trans (.single read ends)).trans split, ?_, ?_, parsed⟩
    · simp only [List.map_append, List.map_cons, List.map_nil, comma, tokens]
      rfl
    · simpa using spelled
  · exact absurd read (read_refused (Place.meet_afterListItem_other awaiting comma close))
termination_by rest.length

section

variable {n : NestedDraft} {r : Reader} {rest : List Lexeme} {head : TestHead} {field : String}
variable {operator : Operator}

/-- The list of an operator is in parentheses unless it is a single item. -/
theorem exists_list (awaiting : r.place.awaiting = .list head field operator)
    (takes : operator.takesList = true) (ends : r.EndsIn rest n) :
    ∃ ls v path behind next, Split n r rest ls behind next ∧
      SpellsOperand operator (ls.map Lexeme.token) v ∧ FieldPath.forQuery field = .ok path := by
  obtain ⟨l, rest, next, rfl, read, ends⟩ := ends.exists_cons fun stop => by
    simp only [Place.finish, awaiting, Option.isSome_some]
  by_cases paren : l.token = .sign .openParen
  · cases read_goOn (Place.meet_list_paren awaiting paren) read
    have first := Split.single read ends
    obtain ⟨m, rest, next, rfl, read, ends⟩ := ends.exists_cons fun _ => rfl
    have met := Place.meet_listStart (p := (r.await (.listStart head field operator)).place)
      (l := m) rfl
    by_cases close : m.token = .sign .closeParen
    · rw [if_pos close] at met
      obtain ⟨path, parsed⟩ := exists_path met read
      refine ⟨_, .array [], path, rest, next, first.trans (.single read ends), ?_, parsed⟩
      simp only [List.map_append, List.map_cons, List.map_nil, paren, close]
      exact .none takes
    · rw [if_neg close] at met
      obtain ⟨v, literal, rfl⟩ := exists_item met read
      obtain ⟨ls, us, all, path, behind, last, split, tokens, spelled, parsed⟩ :=
        exists_items (.one literal) rfl ends
      refine ⟨_, .array all, path, behind, last,
        (first.trans (.single read ends)).trans split, ?_, parsed⟩
      have list := SpellsOperand.list takes spelled
      simp only [List.map_append, List.map_cons, List.map_nil, paren, tokens]
      simpa using list
  · cases literal : literal? l.token with
    | none => exact absurd read (read_refused (Place.meet_list_other awaiting paren literal))
    | some v =>
      obtain ⟨path, parsed⟩ := exists_path (Place.meet_list_literal awaiting literal) read
      exact ⟨_, .array [v], path, rest, next, .single read ends, .bare takes literal, parsed⟩

theorem exists_operand (operator : Operator)
    (awaiting : r.place.awaiting = Place.behindOperator (.test head field) operator)
    (ends : r.EndsIn rest n) :
    ∃ ls v path behind next, Split n r rest ls behind next ∧
      SpellsOperand operator (ls.map Lexeme.token) v ∧ FieldPath.forQuery field = .ok path := by
  cases takes : operator.takesList with
  | true => exact exists_list (awaiting.trans (Place.behindOperator_of_list takes ..)) takes ends
  | false =>
    have awaiting := awaiting.trans (Place.behindOperator_of_value takes head field)
    obtain ⟨l, rest, next, rfl, read, ends⟩ := ends.exists_cons fun stop => by
      simp only [Place.finish, awaiting, Option.isSome_some]
    obtain ⟨v, path, literal, parsed⟩ := exists_literal (Place.meet_operand awaiting) read
    exact ⟨_, v, path, rest, next, .single read ends, .value takes literal, parsed⟩

/-- What stands behind the tokens `before` is the rest of an operator and an operand for it. -/
def BeginsComparison (n : NestedDraft) (r : Reader) (rest : List Lexeme) (before : List Token)
    (field : String) : Prop :=
  ∃ ls ts us operator v path behind next, Split n r rest ls behind next ∧
    ls.map Lexeme.token = ts ++ us ∧ SpellsOperator (before ++ ts) operator ∧
    SpellsOperand operator us v ∧ FieldPath.forQuery field = .ok path

/-- An operator that is read to its end is followed by its operand. -/
theorem beginsComparison_of_operator {next : Reader} {l : Lexeme} {before : List Token}
    (operator : Operator) (read : r.read l = some next)
    (awaiting : next.place.awaiting = Place.behindOperator (.test head field) operator)
    (spelled : SpellsOperator (before ++ [l.token]) operator) (ends : next.EndsIn rest n) :
    BeginsComparison n r (l :: rest) before field := by
  obtain ⟨ls, v, path, behind, last, split, operand, parsed⟩ :=
    exists_operand operator awaiting ends
  exact ⟨_, _, _, operator, v, path, behind, last, (Split.single read ends).trans split,
    List.map_append .., spelled, operand, parsed⟩

/-- The first token of an operator of two goes before the second one. -/
theorem BeginsComparison.cons {next : Reader} {l : Lexeme} (read : r.read l = some next)
    (ends : next.EndsIn rest n) (begins : BeginsComparison n next rest [l.token] field) :
    BeginsComparison n r (l :: rest) [] field := by
  obtain ⟨ls, ts, us, operator, v, path, behind, last, split, tokens, spelled, operand,
    parsed⟩ := begins
  refine ⟨_, l.token :: ts, us, operator, v, path, behind, last,
    (Split.single read ends).trans split, ?_, spelled, operand, parsed⟩
  simp only [List.map_append, List.map_cons, List.map_nil, tokens]
  rfl

theorem exists_afterIs (awaiting : r.place.awaiting = .afterIs (.test head field))
    (ends : r.EndsIn rest n) : BeginsComparison n r rest [.keyword .is] field := by
  obtain ⟨l, rest, next, rfl, read, ends⟩ := ends.exists_cons fun stop => by
    simp only [Place.finish, awaiting, Option.isSome_some]
  have met := Place.meet_afterIs (l := l) awaiting
  by_cases negated : l.token = .keyword .not
  · rw [if_pos negated] at met
    cases read_goOn met read
    refine beginsComparison_of_operator .isNot read rfl ?_ ends
    rw [negated]
    exact .isNot
  · rw [if_neg negated] at met
    obtain ⟨v, path, literal, parsed⟩ := exists_literal met read
    exact ⟨_, [], _, .is, v, path, rest, next, .single read ends, rfl, .is, .value rfl literal,
      parsed⟩

theorem exists_afterNot {start : Nat}
    (awaiting : r.place.awaiting = .afterNot (.test head field) start)
    (ends : r.EndsIn rest n) : BeginsComparison n r rest [.keyword .not] field := by
  obtain ⟨l, rest, next, rfl, read, ends⟩ := ends.exists_cons fun stop => by
    simp only [Place.finish, awaiting, Option.isSome_some]
  by_cases word : l.token = .keyword .inWord
  · cases read_goOn (Place.meet_afterNot_in awaiting word) read
    refine beginsComparison_of_operator .notInList read rfl ?_ ends
    rw [word]
    exact .notIn
  by_cases like : l.token = .keyword .like
  · cases read_goOn (Place.meet_afterNot_like awaiting like) read
    refine beginsComparison_of_operator .notLike read rfl ?_ ends
    rw [like]
    exact .notLike
  · exact absurd read (read_refused (Place.meet_afterNot_other awaiting word like))

/-- What follows a field is an operator with an operand for it. -/
theorem exists_comparison (awaiting : r.place.awaiting = .operator (.test head field))
    (ends : r.EndsIn rest n) : BeginsComparison n r rest [] field := by
  obtain ⟨l, rest, next, rfl, read, ends⟩ := ends.exists_cons fun stop => by
    simp only [Place.finish, awaiting, Option.isSome_some]
  by_cases is : l.token = .keyword .is
  · cases read_goOn (Place.meet_operator_is awaiting is) read
    refine .cons read ends ?_
    rw [is]
    exact exists_afterIs rfl ends
  by_cases negated : l.token = .keyword .not
  · cases read_goOn (Place.meet_operator_not awaiting negated) read
    refine .cons read ends ?_
    rw [negated]
    exact exists_afterNot rfl ends
  · cases symbol : operator? l.token with
    | none =>
      refine absurd read (read_refused
        (e := unexpected l (expected (.operator (.test head field)))) ?_)
      rw [Place.meet_operator awaiting, Place.atOperator_of_none is negated symbol]
      rfl
    | some operator =>
      have met := (Place.meet_operator awaiting).trans (Place.atOperator_of_operator? symbol)
      cases read_goOn met read
      exact beginsComparison_of_operator operator read rfl (.single symbol) ends

end

/-- What stands where a condition is expected begins with a term. -/
def BeginsTerm (n : NestedDraft) (r : Reader) (rest : List Lexeme) : Prop :=
  ∃ ls c behind next, Split n r rest ls behind next ∧ SpellsTerm (ls.map Lexeme.token) c

/-- What stands where a condition is expected begins with a chain that does not go on. -/
def BeginsChain (n : NestedDraft) (r : Reader) (rest : List Lexeme) (parens : List Nat) : Prop :=
  ∃ ls chain behind next, Split n r rest ls behind next ∧
    SpellsChain (ls.map Lexeme.token) chain ∧ next.place.awaiting = .afterCondition parens ∧
    ∀ l ∈ behind.head?, connective? l.token = none

/-- A piece that has a term in it makes what is behind it shorter. -/
theorem Split.length_lt {n : NestedDraft} {r next : Reader} {rest ls behind : List Lexeme}
    {c : Condition} (split : Split n r rest ls behind next)
    (spelled : SpellsTerm (ls.map Lexeme.token) c) :
    behind.length < rest.length := by
  have nonempty : ls ≠ [] := by
    intro empty
    rw [empty] at spelled
    generalize tokens : ([] : List Lexeme).map Lexeme.token = ts at spelled
    cases spelled <;> cases tokens
  have positive := List.length_pos_iff.mpr nonempty
  rw [split.parts, List.length_append]
  omega

/-- Connectives and terms are read as long as there are connectives. -/
theorem exists_links {n : NestedDraft} {r : Reader} {rest : List Lexeme} {parens : List Nat}
    {ts : List Token} {chain : List (Connective × Condition)} (spelled : SpellsChain ts chain)
    (awaiting : r.place.awaiting = .afterCondition parens) (ends : r.EndsIn rest n)
    (terms : ∀ (next : Reader) (later : List Lexeme) (connective : Connective),
      later.length < rest.length → next.place.awaiting = .condition connective parens →
      next.EndsIn later n → BeginsTerm n next later) :
    ∃ ls all behind next, Split n r rest ls behind next ∧
      SpellsChain (ts ++ ls.map Lexeme.token) all ∧
      next.place.awaiting = .afterCondition parens ∧
      ∀ l ∈ behind.head?, connective? l.token = none := by
  match rest with
  | [] =>
    refine ⟨[], chain, [], r, ⟨rfl, rfl, ends⟩, ?_, awaiting, ?_⟩
    · simpa using spelled
    · intro l member
      cases member
  | l :: rest =>
    cases joined : connective? l.token with
    | none =>
      refine ⟨[], chain, l :: rest, r, ⟨rfl, rfl, ends⟩, ?_, awaiting, ?_⟩
      · simpa using spelled
      · intro m member
        cases member
        exact joined
    | some connective =>
      obtain ⟨next, read, ends⟩ := ends.cons
      cases read_connective awaiting joined read
      have first := Split.single read ends
      obtain ⟨ls, c, middle, next, split, term⟩ :=
        terms _ rest connective (Nat.lt_succ_self _) rfl ends
      have shorter := split.length_lt term
      have stands : next.place.awaiting = .afterCondition parens := by
        rw [readAll_term term rfl rfl split.reads]
        rfl
      obtain ⟨ms, all, behind, last, later, spelled, awaiting, stops⟩ :=
        exists_links (spelled.more joined term) stands split.ends
          (fun next later connective bound =>
            terms next later connective (by simp only [List.length_cons]; omega))
      refine ⟨_, all, behind, last, (first.trans split).trans later, ?_, awaiting, stops⟩
      simpa using spelled
termination_by rest.length

/-- A chain is read if its terms are. -/
theorem exists_chain_of_terms {n : NestedDraft} {r : Reader} {rest : List Lexeme}
    {parens : List Nat} (awaiting : r.place.awaiting = .condition .and parens)
    (ends : r.EndsIn rest n)
    (terms : ∀ (next : Reader) (later : List Lexeme) (connective : Connective),
      later.length ≤ rest.length → next.place.awaiting = .condition connective parens →
      next.EndsIn later n → BeginsTerm n next later) : BeginsChain n r rest parens := by
  obtain ⟨ls, c, middle, next, split, term⟩ :=
    terms r rest .and (Nat.le_refl _) awaiting ends
  have shorter := split.length_lt term
  have stands : next.place.awaiting = .afterCondition parens := by
    rw [readAll_term term rfl awaiting split.reads]
    rfl
  obtain ⟨ms, all, behind, last, later, spelled, awaiting, stops⟩ :=
    exists_links (.one term) stands split.ends
      (fun next later connective bound => terms next later connective (by omega))
  refine ⟨_, all, behind, last, split.trans later, ?_, awaiting, stops⟩
  simpa using spelled

/-- Where a condition is expected, what is accepted begins with a term. -/
theorem exists_term {n : NestedDraft} {r : Reader} {rest : List Lexeme} {connective : Connective}
    {parens : List Nat} (awaiting : r.place.awaiting = .condition connective parens)
    (ends : r.EndsIn rest n) : BeginsTerm n r rest := by
  obtain ⟨l, inside, next, same, read, ends⟩ := ends.exists_cons fun stop => by
    simp only [Place.finish, awaiting, Option.isSome_some]
  have shorter : inside.length < rest.length := by
    rw [same]
    exact Nat.lt_succ_self _
  rw [same]
  by_cases paren : l.token = .sign .openParen
  · cases read_open awaiting paren read
    have first := Split.single read ends
    -- Every term in the parentheses begins behind the one that opens them.
    obtain ⟨ls, chain, behind, next, split, spelled, awaiting, stops⟩ :=
      exists_chain_of_terms rfl ends fun next later connective bound awaiting ends =>
        exists_term awaiting ends
    obtain ⟨m, behind, last, rfl, read, ends⟩ := split.ends.exists_cons fun stop => by
      simp only [Place.finish, awaiting, Option.isSome_some]
    by_cases close : m.token = .sign .closeParen
    · refine ⟨_, .group chain, behind, last, (first.trans split).trans (.single read ends), ?_⟩
      have group := SpellsTerm.group spelled
      simpa [paren, close] using group
    · exact absurd read
        (read_refused (Place.meet_afterCondition_other awaiting (stops m rfl) close))
  by_cases named : ∃ text, l.token = .path text
  · obtain ⟨text, path⟩ := named
    cases read_goOn (Place.meet_condition_path awaiting path) read
    obtain ⟨ls, ts, us, operator, v, field, behind, last, split, tokens, symbol, operand,
      parsed⟩ := exists_comparison rfl ends
    refine ⟨_, .test ⟨field, operator, v⟩, behind, last,
      (Split.single read ends).trans split, ?_⟩
    have test := SpellsTerm.test parsed symbol operand
    simpa [path, tokens] using test
  · exact absurd read (read_refused (Place.meet_condition_other awaiting paren
      fun text path => named ⟨text, path⟩))
termination_by rest.length
decreasing_by omega

theorem exists_chain {n : NestedDraft} {r : Reader} {rest : List Lexeme} {parens : List Nat}
    (awaiting : r.place.awaiting = .condition .and parens) (ends : r.EndsIn rest n) :
    BeginsChain n r rest parens :=
  exists_chain_of_terms awaiting ends fun _ _ _ _ awaiting ends =>
    exists_term awaiting ends

end RecordQuery.Statement.Reader
