import RecordQuery.Proofs.Canonical.Clause

namespace RecordQuery

open Lexeme (Spells)
open Token (IsWord Stops)

namespace JoinTerms

/-- The keys and the alias of a join that are read back from their notation. -/
structure IsWritten (terms : JoinTerms) : Prop where
  word : ∀ name ∈ terms.aliasName, IsWord name.toList
  leftKey : terms.leftKey.IsWritten
  rightKey : terms.rightKey.IsWritten

/-- The tokens behind the right query of a join, given those of the operator. -/
def tokens (terms : JoinTerms) (operator : List Token) : List Token :=
  (match terms.aliasName with
    | some name => [.keyword .asWord, .path name]
    | none => []) ++
    .keyword .on :: .path terms.leftKey.text :: (operator ++ [.path terms.rightKey.text])

/-- The notation of a join behind its right query. -/
def displayChars (terms : JoinTerms) : List Char :=
  Query.optional "AS" (terms.aliasName.map String.toList) ++
    Query.clause "ON" true
      (terms.leftKey.text.toList ++ ' ' :: terms.operator.symbol.toList ++ ' ' ::
        terms.rightKey.text.toList)

end JoinTerms

theorem FieldPath.IsWritten.spells {p : FieldPath} (written : p.IsWritten) :
    Spells p.text.toList [.path p.text] := by
  have piece := written.word.isPiece
  rw [String.ofList_toList] at piece
  exact .of_piece piece

theorem JoinTerms.IsWritten.spells {terms : JoinTerms} (written : terms.IsWritten)
    {operator : List Token} (spelled : Spells terms.operator.symbol.toList operator) :
    Spells terms.displayChars (terms.tokens operator) := by
  have keys := (written.leftKey.spells.append spelled.blank (Stops.blank _)).append
    written.rightKey.spells.blank (Stops.blank _)
  have on := ((Spells.of_piece (Token.isPiece_keyword .on)).append keys.blank (Stops.blank _)).blank
  unfold displayChars tokens
  cases named : terms.aliasName with
  | none => exact on
  | some name =>
    have piece := (written.word name named).isPiece
    rw [String.ofList_toList] at piece
    have aliased := ((Spells.of_piece (Token.isPiece_keyword .asWord)).append
      (Spells.of_piece piece).blank (Stops.blank _)).blank
    exact aliased.append on (Stops.blank _)

/-- The draft with one more join. -/
def Draft.withJoin (d : Draft) (join : Join) : Draft :=
  { d with joins := d.joins ++ [join] }

theorem Draft.join_on {d right : Draft} {q : Query} {terms : JoinTerms} (settled : d.pending = none)
    (built : right.build = .ok q) (written : terms.IsWritten) :
    ((Outcome.ofExcept d (d.join terms.kind right terms.aliasName)).andThen fun d =>
        d.on terms.leftKey.text terms.operator terms.rightKey.text) =
      .done (d.withJoin ⟨q, terms⟩) := by
  have trimmed : terms.aliasName.map Text.trim = terms.aliasName := by
    cases named : terms.aliasName with
    | none => rfl
    | some name =>
      rw [Option.map_some, Text.trim, (written.word name named).path.trimChars,
        String.ofList_toList]
  have nonempty : terms.aliasName ≠ Option.some "" := by
    intro empty
    obtain ⟨c, rest, same, -⟩ := (written.word "" empty).path.exists_cons
    cases same
  have joined : d.join terms.kind right terms.aliasName =
      .ok { d with pending := Option.some ⟨terms.kind, q, terms.aliasName⟩ } := by
    rw [join, settled]
    simp only [trimmed, if_neg nonempty, built]
    rfl
  have keys : Draft.on { d with pending := Option.some ⟨terms.kind, q, terms.aliasName⟩ }
      terms.leftKey.text terms.operator terms.rightKey.text =
        .done { d.withJoin ⟨q, terms⟩ with pending := none } := by
    rw [on]
    simp only [written.leftKey.read, written.rightKey.read]
    rfl
  rw [joined]
  exact keys.trans (by rw [← settled]; rfl)

namespace Statement

open Reader

/-- The start of a query. -/
def Spot.start (settings : QuerySettings) : Spot :=
  ⟨[], .clause, .empty settings⟩

theorem JoinKind.exists_keyword (kind : JoinKind) : ∃ k : Keyword, kind.name = k.spelling ∧
    Clause.ofKeyword? k = some .join ∧ ∀ (p : Place) l, ∃ outer,
      p.begin l k .join = p.goOn (.joinWord ⟨kind, l.start⟩ outer) := by
  cases kind with
  | inner => exact ⟨.inner, rfl, rfl, fun _ _ => ⟨_, rfl⟩⟩
  | left => exact ⟨.left, rfl, rfl, fun _ _ => ⟨_, rfl⟩⟩
  | right => exact ⟨.right, rfl, rfl, fun _ _ => ⟨_, rfl⟩⟩
  | full => exact ⟨.full, rfl, rfl, fun _ _ => ⟨_, rfl⟩⟩

section

variable {clauses : List Clause} {around : List AroundQuery} {outer : List Draft}
variable {head : JoinHead} {right d : Draft} {q : Query} {terms : JoinTerms} {ls : List Lexeme}

/-- The alias of a join is read back if it has one, and its keys follow. -/
theorem exists_readAll_alias {operator : List Token}
    (tokens : ls.map Lexeme.token = terms.tokens operator) (clauses : List Clause)
    (around : List AroundQuery) (head : JoinHead) (n : NestedDraft) :
    ∃ ms ns, ls = ms ++ ns ∧
      readAll ⟨⟨clauses, around, .afterRight head⟩, n⟩ ms =
        some ⟨⟨clauses, around, .leftKey head terms.aliasName⟩, n⟩ ∧
      ns.map Lexeme.token =
        .path terms.leftKey.text :: (operator ++ [.path terms.rightKey.text]) := by
  let reader (awaiting : Awaiting) : Reader := ⟨⟨clauses, around, awaiting⟩, n⟩
  unfold JoinTerms.tokens at tokens
  cases named : terms.aliasName with
  | none =>
    rw [named] at tokens
    obtain ⟨l, ns, rfl, on, tokens⟩ := List.map_eq_cons_iff.mp tokens
    refine ⟨[l], ns, rfl, readAll_of_read (read_of_goOn ?_) [], tokens⟩
    simp only [Place.meet, on]
  | some name =>
    rw [named] at tokens
    obtain ⟨l, rest, rfl, word, tokens⟩ := List.map_eq_cons_iff.mp tokens
    obtain ⟨m, rest, rfl, path, tokens⟩ := List.map_eq_cons_iff.mp tokens
    obtain ⟨o, ns, rfl, on, tokens⟩ := List.map_eq_cons_iff.mp tokens
    have first : (reader (.afterRight head)).read l = some (reader (.joinAlias head)) :=
      read_of_goOn (by simp only [Place.meet, reader, word])
    have second : (reader (.joinAlias head)).read m = some (reader (.on head name)) :=
      read_of_goOn (by simp only [Place.meet, reader, path, name?])
    have third : (reader (.on head name)).read o =
        some (reader (.leftKey head (Option.some name))) :=
      read_of_goOn (by simp only [Place.meet, reader, on])
    refine ⟨[l, m, o], ns, rfl, ?_, tokens⟩
    rw [readAll_of_read first, readAll_of_read second]
    exact readAll_of_read third []

/-- The keys of a join are read back, and the join is added to the query around its right one. -/
theorem readAll_tokens (written : terms.IsWritten) {operator : List Token}
    (spelled : SpellsOperator operator terms.operator) (kind : head.kind = terms.kind)
    (built : right.build = .ok q) (settled : d.pending = none)
    (tokens : ls.map Lexeme.token = terms.tokens operator) :
    readAll ⟨⟨clauses, around, .afterRight head⟩, ⟨right, d :: outer⟩⟩ ls =
      some ⟨⟨clauses, around, .clause⟩, ⟨d.withJoin ⟨q, terms⟩, outer⟩⟩ := by
  let reader (awaiting : Awaiting) : Reader := ⟨⟨clauses, around, awaiting⟩, ⟨right, d :: outer⟩⟩
  obtain ⟨before, rest, rfl, first, tokens⟩ := exists_readAll_alias tokens clauses around head
    ⟨right, d :: outer⟩
  obtain ⟨l, rest, rfl, path, tokens⟩ := List.map_eq_cons_iff.mp tokens
  obtain ⟨ms, ns, rfl, middle, last⟩ := List.map_eq_append_iff.mp tokens
  obtain ⟨n, rfl, key⟩ := List.map_eq_singleton_iff.mp last
  have left : (reader (.leftKey head terms.aliasName)).read l =
      some (reader (.operator (.keys head terms.aliasName terms.leftKey.text))) :=
    read_of_goOn (by simp only [Place.meet, reader, path])
  obtain ⟨behind, awaits, reads⟩ := exists_readAll_operator spelled
    (.keys head terms.aliasName terms.leftKey.text)
  have met : (reader behind).place.meet n = (reader behind).place.step head.start
      (.join head.kind terms.aliasName terms.leftKey.text terms.operator terms.rightKey.text)
      .clause := by
    rcases awaits with rfl | ⟨is, rfl⟩
    · simp only [Place.behindOperator, reader, Place.meet, Place.atRightKey, key]
    · simp only [is, reader, Place.meet, Place.atRightKey, key]
  rw [readAll_of_append first, readAll_of_read left, readAll_of_append (reads _ ms middle rfl)]
  refine readAll_of_read (read_of_step _ _ met ?_) []
  simp only [NestedDraft.take, kind, reader, Draft.join_on settled built written]
  rfl

end

section

variable {s inner : Spot} {l m n : Lexeme} (around : List AroundQuery) (outer : List Draft)

/-- The words of a join and a parenthesis begin the query that is joined. -/
theorem Spot.readAll_opening (ends : s.EndsBefore 3) {kind : JoinKind} {k : Keyword}
    (begins : Clause.ofKeyword? k = some .join)
    (begun : ∀ (p : Place) l, ∃ outer, p.begin l k .join = p.goOn (.joinWord ⟨kind, l.start⟩ outer))
    (word : l.token = .keyword k) (join : m.token = .keyword .join)
    (paren : n.token = .sign .openParen) :
    readAll (s.reader around outer) [l, m, n] =
      some ((start s.draft.settings).reader (⟨.join :: s.clauses, ⟨kind, l.start⟩⟩ :: around)
        (s.draft :: outer)) := by
  let reader (awaiting : Awaiting) : Reader :=
    ⟨⟨.join :: s.clauses, around, awaiting⟩, ⟨s.draft, outer⟩⟩
  obtain ⟨full, goesOn⟩ := begun ⟨.join :: s.clauses, around, s.awaiting⟩ l
  have first : (s.reader around outer).read l = some (reader (.joinWord ⟨kind, l.start⟩ full)) := by
    have met := ends.meet word begins (.inr ⟨rfl, Nat.le_refl _⟩) around outer
    rw [goesOn] at met
    rw [Reader.read, met]
    rfl
  have second : (reader (.joinWord ⟨kind, l.start⟩ full)).read m =
      some (reader (.right ⟨kind, l.start⟩)) :=
    read_of_goOn (by simp only [Place.meet, reader, join])
  have third : (reader (.right ⟨kind, l.start⟩)).read n =
      some ((start s.draft.settings).reader (⟨.join :: s.clauses, ⟨kind, l.start⟩⟩ :: around)
        (s.draft :: outer)) := by
    rw [Reader.read]
    simp only [Place.meet, reader, paren]
    rfl
  rw [readAll_of_read first, readAll_of_read second]
  exact readAll_of_read third []

/-- Behind the query that is joined a parenthesis leads back to the one around it. -/
theorem Spot.read_closing (ends : inner.awaiting.EndsClause) (close : l.token = .sign .closeParen)
    (a : AroundQuery) :
    (inner.reader (a :: around) outer).read l =
      some ⟨⟨a.clauses, around, .afterRight a.head⟩, ⟨inner.draft, outer⟩⟩ := by
  rw [Reader.read, Place.meet_of_endsClause ends (.inl close), Place.atClause]
  simp only [close, reader]
  rfl

end

/-- A join is read back as soon as its right query is, and more joins may follow. -/
theorem Spot.exists_join {s inner : Spot} {q again : Query} {right : List Char}
    (ends : s.EndsBefore 3) (makes : s.Makes q) (leads : Leads right (start .default) inner)
    (behind : inner.awaiting.EndsClause) (built : inner.draft.build = .ok again)
    {terms : JoinTerms} (written : terms.IsWritten) :
    ∃ s', Leads (' ' :: terms.kind.name.toList ++ " JOIN (".toList ++ right ++ ')' ::
        terms.displayChars) s s' ∧
      s'.EndsBefore 3 ∧ s'.Makes { q with joins := q.joins ++ [⟨again, terms⟩] } := by
  obtain ⟨clauses, awaiting, d⟩ := s
  obtain ⟨aliasable, clause, rfl⟩ := makes
  obtain ⟨k, name, begins, begun⟩ := JoinKind.exists_keyword terms.kind
  obtain ⟨us, spells, reads⟩ := leads
  obtain ⟨os, spellsOperator, operator⟩ := terms.operator.exists_spells
  have closed := spells.append (written.spells spellsOperator).closeParen (Stops.paren _)
  have join := (Spells.of_piece (Token.isPiece_keyword .join)).append closed.openParen.blank
    (Stops.blank _)
  have all := ((Spells.of_piece (Token.isPiece_keyword k)).append join.blank (Stops.blank _)).blank
  have chars : ' ' :: terms.kind.name.toList ++ " JOIN (".toList ++ right ++ ')' ::
      terms.displayChars = ' ' :: (k.spelling.toList ++ ' ' :: (Keyword.join.spelling.toList ++
        ' ' :: '(' :: (right ++ ')' :: terms.displayChars))) := by
    rw [name]
    simp only [List.append_assoc, List.cons_append]
    rfl
  refine ⟨⟨.join :: clauses, .clause, (Draft.ofQuery q aliasable clause).withJoin ⟨again, terms⟩⟩,
    ?_, ?_, aliasable, clause, rfl⟩
  · rw [chars]
    refine ⟨_, all, fun around outer ls tokens => ?_⟩
    obtain ⟨l, rest, rfl, word, tokens⟩ := List.map_eq_cons_iff.mp tokens
    obtain ⟨m, rest, rfl, joinWord, tokens⟩ := List.map_eq_cons_iff.mp tokens
    obtain ⟨n, rest, rfl, paren, tokens⟩ := List.map_eq_cons_iff.mp tokens
    obtain ⟨ms, rest, rfl, middle, tokens⟩ := List.map_eq_append_iff.mp tokens
    obtain ⟨o, ns, rfl, close, tokens⟩ := List.map_eq_cons_iff.mp tokens
    have opening := readAll_opening around outer ends begins begun word joinWord paren
    refine (readAll_of_append opening (ms ++ o :: ns)).trans ?_
    refine (readAll_of_append (reads _ _ ms middle) (o :: ns)).trans ?_
    rw [readAll_of_read (read_closing around _ behind close _)]
    exact readAll_tokens written operator rfl built rfl tokens
  · exact ⟨trivial, List.forall_mem_cons.mpr ⟨by decide, ends.clauses⟩⟩

end Statement

end RecordQuery
