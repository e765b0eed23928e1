import RecordQuery.Proofs.Canonical.Argument
import RecordQuery.Proofs.Canonical.Query
import RecordQuery.Proofs.Condition.Recognition
import RecordQuery.Proofs.FieldPath.Grammar

namespace RecordQuery

open Lexeme (Solid Spells byteLength)
open Token (IsPath IsPiece IsWord Stops)

/-- A path is no number, because it does not begin with a digit or a sign. -/
theorem Token.IsPath.ofText?_eq_none {text : String} (isPath : IsPath text.toList) :
    Number.ofText? text = none := by
  have first {cs : List Char} (isPath : IsPath cs) :
      ∃ c rest, cs = c :: rest ∧ c ≠ '-' ∧ Text.isDigit c = false := by
    cases isPath with
    | bare starts => exact ⟨_, _, rfl, ne_of_holds starts rfl, isDigit_of_startsName starts⟩
    | quoted => exact ⟨_, _, rfl, by decide, rfl⟩
  obtain ⟨c, rest, same, minus, digit⟩ := first isPath
  refine Option.eq_none_iff_forall_not_mem.mpr fun n read => ?_
  obtain ⟨k, written, -⟩ := Number.ofText?_eq_some_iff.mp read
  obtain ⟨d, more, begins, number⟩ := k.exists_cons_chars
  rw [isPath.trimChars, same, begins] at written
  obtain ⟨rfl, -⟩ := List.cons.inj written
  rcases number with found | found
  · exact minus found
  · rw [digit] at found
    cases found

/-- A path that is none of the words for other values stands for its text. -/
theorem Token.IsPath.ofUnquoted {text : String} (isPath : IsPath text.toList)
    (plain : Text.lowerAscii text ∉ ["null", "true", "false"]) :
    Literal.ofUnquoted text = .text text := by
  simp only [List.mem_cons, List.not_mem_nil, or_false, not_or] at plain
  obtain ⟨null, yes, no⟩ := plain
  simp only [Literal.ofUnquoted, null, yes, no, if_false, isPath.ofText?_eq_none, ite_self]

namespace Statement

open Reader

variable {settings : QuerySettings} {s : Spot} {cs xs : List Char} {t : Token} {q : Query}

/-- A text asks for a query when its last piece leads to an end there. -/
theorem Leads.ofText_piece (leads : Leads cs (.start settings) s) (piece : IsPiece xs t)
    (last : ∀ l, l.token = t → ∃ r n, (s.reader [] []).read l = some r ∧
      (∀ stop, r.finish stop = some n) ∧ n.outermost.build = .ok q) :
    Query.ofText settings (String.ofList (cs ++ ' ' :: xs)) = .ok q := by
  obtain ⟨ts, spells, reads⟩ := leads
  have tokens := (spells.append (Spells.of_piece piece).blank (Stops.blank xs)).ofText_map
  obtain ⟨ms, ns, both, before, tokens⟩ := List.map_eq_append_iff.mp tokens
  obtain ⟨l, rfl, same⟩ := List.map_eq_singleton_iff.mp tokens
  obtain ⟨r, n, read, finishes, built⟩ := last l same
  refine Reader.ofText_of_readAll (r := r) ?_ finishes built
  rw [both]
  exact (readAll_of_append (reads [] [] ms before) [l]).trans (readAll_of_read read [])

/-- A text asks for nothing when what stands behind a part of it is refused there. -/
theorem Leads.not_ofText (leads : Leads cs (.start settings) s) (stops : Stops xs)
    (refused : ∀ start r, (s.reader [] []).readAll (Lexeme.ofChars start xs) ≠ some r) :
    Query.ofText settings (String.ofList (cs ++ xs)) ≠ .ok q := by
  intro accepted
  obtain ⟨ts, spells, reads⟩ := leads
  obtain ⟨ls, tokens, cut⟩ := spells xs stops 0
  obtain ⟨n, ends, -⟩ := exists_of_ofText accepted
  have lexemes : Lexeme.ofText (String.ofList (cs ++ xs)) = Lexeme.ofChars 0 (cs ++ xs) := by
    rw [Lexeme.ofText, String.toList_ofList]
    rfl
  rw [lexemes, cut] at ends
  obtain ⟨next, first, r, stop, later, -⟩ := ends.split
  cases (reads [] [] ls tokens).symm.trans first
  exact refused _ r later

theorem Leads.not_ofText_piece (leads : Leads cs (.start settings) s) (piece : IsPiece xs t)
    (refused : ∀ l, l.token = t → (s.reader [] []).read l = none) :
    Query.ofText settings (String.ofList (cs ++ ' ' :: xs)) ≠ .ok q := by
  refine leads.not_ofText (Stops.blank xs) fun start r reads => ?_
  have cut := Lexeme.ofChars_piece piece Stops.nil (start + 1)
  rw [List.append_nil] at cut
  rw [Lexeme.ofChars_blank, cut] at reads
  obtain ⟨next, read, -⟩ := readAll_cons reads
  cases (refused _ rfl).symm.trans read

theorem Reader.read_eq_none_of_step {r : Reader} {l : Lexeme} {position : Nat} {step : Step}
    {awaiting : Awaiting} {fault : BuildFault}
    (met : r.place.meet l = r.place.step position step awaiting)
    (refused : (r.draft.take step).2 = some fault) : r.read l = none := by
  rcases taken : r.draft.take step with ⟨n, other⟩
  rw [taken] at refused
  obtain rfl : other = some fault := refused
  simp only [read, met, Place.step, move, NestedDraft.takeAll, taken]

theorem Place.eq_await_of_atItem {p next : Place} {l : Lexeme}
    (met : (p.atItem l).next = .ok next) : next = p.await .afterItem := by
  unfold atItem at met
  split at met
  · cases met
    rfl
  · cases met
    rfl
  · split at met
    · cases met
      rfl
    · cases met
  · cases met

theorem Place.exists_call_of_atItem {p next : Place} {l : Lexeme} {name : String}
    {texts : List String} (met : (p.atItem l).next = .ok next) (token : l.token = .call name texts) :
    ∃ c, Call.ofTexts l.start name texts = .ok c := by
  simp only [atItem, token] at met
  cases made : Call.ofTexts l.start name texts with
  | error e =>
    rw [made] at met
    cases met
  | ok c => exact ⟨c, rfl⟩

/-- Behind an item of a query that stands in no other one there is no parenthesis. -/
theorem Reader.read_paren_eq_none {r : Reader} {l : Lexeme} (awaiting : r.place.awaiting = .afterItem)
    (outermost : r.place.around = [])
    (paren : l.token = .sign .openParen ∨ l.token = .sign .closeParen) : r.read l = none := by
  have met : r.place.meet l = refuse l (expected .clause) := by
    rcases paren with token | token
    · simp [Place.meet, awaiting, token, Place.atComma, Place.atClause]
    · simp [Place.meet, awaiting, token, Place.atComma, Place.atClause, outermost]
  rw [read, met]
  rfl

theorem Reader.finish_of_takeAll {r : Reader} {stop : Nat} {steps : List PlacedStep}
    {draft : NestedDraft} (ends : r.place.finish stop = (steps, none))
    (taken : r.draft.takeAll steps = (draft, none)) : r.finish stop = some draft := by
  simp only [finish, ends, taken]

namespace Spot

variable (settings)

theorem leads_select : Leads "SELECT".toList (.start settings)
    ⟨[.selectFields], .itemAfterSelect, .empty settings⟩ :=
  Leads.begin (endsBefore_start settings) (k := .select) rfl (by decide) fun _ _ => rfl

theorem leads_selectAll : Leads "SELECT *".toList (.start settings)
    ⟨[.selectFields], .afterItem, (Draft.empty settings).all⟩ :=
  (leads_select settings).append (leads_star _ (.inr rfl) _).blank (Stops.blank _)

theorem endsBefore_selectAll :
    EndsBefore ⟨[.selectFields], .afterItem, (Draft.empty settings).all⟩ 1 :=
  ⟨trivial, List.forall_mem_singleton.mpr (by decide)⟩

end Spot

end Statement

namespace FieldPath

open Statement Reader Spot

variable {path : FieldPath} (settings : QuerySettings)

theorem ofText_select (alone : path.StandsAlone) :
    Query.ofText settings ("SELECT " ++ path.text) =
      .ok { Query.unwritten with settings, fields := [.ofExpression (.path path)] } := by
  have text : "SELECT " ++ path.text =
      String.ofList ("SELECT".toList ++ ' ' :: path.text.toList) := by
    simp [← String.toList_inj]
  have item := leads_expression [.selectFields] (d := .empty settings) (.inr rfl) rfl
    (e := .path path) alone (List.forall_mem_nil _)
  rw [text]
  exact ((leads_select settings).append item.blank (Stops.blank _)).ofText trivial rfl

theorem ofText_groupBy (alone : path.StandsAlone) :
    Query.ofText settings ("SELECT * GROUP BY " ++ path.text) =
      .ok { Query.unwritten with settings, selectAll := true, groupBy := [path] } := by
  have text : "SELECT * GROUP BY " ++ path.text = String.ofList ("SELECT *".toList ++
      ' ' :: ("GROUP BY".toList ++ ' ' :: path.text.toList)) := by
    simp [← String.toList_inj]
  have keys := leads_groupBy ((endsBefore_selectAll settings).mono (by decide)) rfl
    (List.forall_mem_singleton.mpr alone)
  rw [text]
  exact ((leads_selectAll settings).append keys.blank (Stops.blank _)).ofText trivial rfl

theorem ofText_orderBy (written : path.IsWritten) :
    Query.ofText settings ("SELECT * ORDER BY " ++ path.text) =
      .ok { Query.unwritten with settings, selectAll := true, orderBy := [⟨path, .asc⟩] } := by
  have text : "SELECT * ORDER BY " ++ path.text = String.ofList ("SELECT *".toList ++
      ' ' :: "ORDER BY".toList ++ ' ' :: path.text.toList) := by
    simp [← String.toList_inj]
  have words := leads_orderByWords ((endsBefore_selectAll settings).mono (by decide))
  have piece := written.word.isPiece
  rw [String.ofList_toList] at piece
  rw [text]
  have added := Draft.addOrderBy_of_read (d := (Draft.empty settings).all) rfl ⟨path, .asc⟩
    written.read
  have taken (start : Nat) : (NestedDraft.ofDraft (Draft.empty settings).all).takeAll
      [⟨start, .orderBy path.text .asc⟩] =
        (.ofDraft ((Draft.empty settings).all.withOrderKey ⟨path, .asc⟩), none) := by
    simp only [NestedDraft.takeAll, NestedDraft.take, NestedDraft.tryInner,
      NestedDraft.ofDraft, added, Outcome.ofExcept]
  let before : Reader :=
    reader ⟨[.orderBy, .selectFields], .orderKey, (Draft.empty settings).all⟩ [] []
  have read (l : Lexeme) (token : l.token = .path path.text) :
      before.read l = some (before.await (.afterOrderKey l.start path.text)) :=
    read_of_goOn (by simp only [before, Place.meet, reader, token])
  refine ((leads_selectAll settings).append words.blank (Stops.blank _)).ofText_piece piece
    fun l token => ⟨_, .ofDraft ((Draft.empty settings).all.withOrderKey ⟨path, .asc⟩),
      read l token, fun stop => ?_, rfl⟩
  -- The end of the text takes the step that a direction would have taken.
  exact finish_of_takeAll rfl (taken l.start)

theorem ofText_filter (written : path.IsWritten) :
    Query.ofText settings ("SELECT * WHERE " ++ path.text ++ " = 1") =
      .ok { Query.unwritten with
        settings, selectAll := true, filter := ⟨[(.and, .test ⟨path, .equal, .int 1⟩)]⟩ } := by
  let p : Predicate := ⟨path, .equal, .int 1⟩
  have chars : Condition.displayChildren [(.and, .test p)] =
      path.text.toList ++ " = 1".toList := by
    have one : (Value.int 1).displayChars = ['1'] := by decide +kernel
    change p.displayChars ++ [] = _
    rw [Predicate.displayChars, Predicate.operandChars_of_value rfl, one]
    simp [p, Operator.symbol]
  have text : "SELECT * WHERE " ++ path.text ++ " = 1" = String.ofList ("SELECT *".toList ++
      ' ' :: ("WHERE".toList ++ ' ' :: Condition.displayChildren [(.and, .test p)])) := by
    simp [← String.toList_inj, chars]
  have predicate : p.IsWritten := ⟨written, fun takes => (by cases takes), fun _ => trivial⟩
  have uniform : Condition.IsUniform settings.grouping [(.and, .test p)] := .test .and p
  have treeWritten : ConditionTree.IsWritten settings.grouping ⟨[(.and, .test p)]⟩ :=
    ⟨fun _ => ⟨uniform, trivial, trivial⟩, List.forall_mem_singleton.mpr predicate⟩
  have conditions := leads_conditions (c := .filter)
    ((endsBefore_selectAll settings).mono (by decide)) rfl rfl treeWritten (List.cons_ne_nil _ _)
  have tree : ((ConditionDraft.empty settings.grouping).addAll [(.and, .test p)]).tree =
      .ok ⟨[(.and, .test p)]⟩ := ConditionDraft.tree_addAll_of_isUniform fun _ => uniform
  rw [text]
  refine ((leads_selectAll settings).append conditions.blank (Stops.blank _)).ofText rfl ?_
  unfold Draft.build
  change (do
    let filter ← ((ConditionDraft.empty settings.grouping).addAll [(.and, .test p)]).tree
    _) = _
  rw [tree]
  rfl

theorem ofText_upper (written : path.IsWritten) (solid : Solid path.text.toList)
    (plain : Literal.ofUnquoted path.text = .text path.text) :
    Query.ofText settings ("SELECT UPPER(" ++ path.text ++ ")") =
      .ok { Query.unwritten with
        settings, fields := [.ofExpression (.call ⟨.upper, [.field path]⟩)] } := by
  let e : Expression := .call ⟨.upper, [.field path]⟩
  have chars : e.displayChars = "UPPER(".toList ++ (path.text.toList ++ [')']) := by
    simp [e, Expression.displayChars, Call.displayChars, Call.toArgument, Argument.displayChars,
      Argument.displayList, FunctionKind.name]
  have text : "SELECT UPPER(" ++ path.text ++ ")" =
      String.ofList ("SELECT".toList ++ ' ' :: e.displayChars) := by
    simp [← String.toList_inj, chars]
  have call : e.IsWritten := ⟨⟨⟨written, solid, plain⟩, trivial⟩, rfl⟩
  have item := leads_expression [.selectFields] (d := .empty settings) (.inr rfl) rfl call
    (List.forall_mem_nil _)
  rw [text]
  exact ((leads_select settings).append item.blank (Stops.blank _)).ofText trivial rfl

end FieldPath

namespace Draft

variable {text : String}

/-- A path with a comma in it is refused where fields may be separated by commas. -/
theorem exists_fault_select {d : Draft} (settled : d.pending = none) (isPath : IsPath text.toList)
    (comma : ',' ∈ text.toList) : ∃ fault, (d.select text).fault = some fault := by
  obtain ⟨part, rest, fault, refused, star, parts⟩ := exists_part isPath comma
  have path : d.selectPath part = .error fault := by
    rw [selectPath, checkAlias_of_settled settled, refused]
    rfl
  exact ⟨fault, by rw [select, parts, selectParts, if_neg star, path]⟩

theorem exists_fault_addGroupBy {d : Draft} (settled : d.pending = none)
    (isPath : IsPath text.toList) (comma : ',' ∈ text.toList) :
    ∃ fault, (d.addGroupBy text).fault = some fault := by
  obtain ⟨part, rest, fault, refused, -, parts⟩ := exists_part isPath comma
  have path : d.groupByPath part = .error fault := by
    rw [groupByPath, checkAlias_of_settled settled, refused]
    rfl
  exact ⟨fault, by rw [addGroupBy, parts, groupByParts, path]⟩

end Draft

namespace FieldPath

open Statement Reader Spot

variable {text : String} (settings : QuerySettings) {q : Query}

theorem not_ofText_select (word : IsWord text.toList) (comma : ',' ∈ text.toList) :
    Query.ofText settings ("SELECT " ++ text) ≠ .ok q := by
  have chars : "SELECT " ++ text = String.ofList ("SELECT".toList ++ ' ' :: text.toList) := by
    simp [← String.toList_inj]
  have piece := word.isPiece
  rw [String.ofList_toList] at piece
  obtain ⟨fault, refused⟩ :=
    Draft.exists_fault_select (d := .empty settings) rfl word.path comma
  rw [chars]
  refine (leads_select settings).not_ofText_piece piece fun l token => ?_
  have met : (reader ⟨[.selectFields], .itemAfterSelect, .empty settings⟩ [] []).place.meet l =
      (reader ⟨[.selectFields], .itemAfterSelect, .empty settings⟩ [] []).place.step l.start
        (.select text) .afterItem := by
    rw [Place.meet_item (.inr rfl) (by simp [token]), Place.atItem, token]
  exact read_eq_none_of_step met refused

theorem not_ofText_groupBy (word : IsWord text.toList) (comma : ',' ∈ text.toList) :
    Query.ofText settings ("SELECT * GROUP BY " ++ text) ≠ .ok q := by
  have chars : "SELECT * GROUP BY " ++ text =
      String.ofList ("SELECT *".toList ++ ' ' :: "GROUP BY".toList ++ ' ' :: text.toList) := by
    simp [← String.toList_inj]
  have piece := word.isPiece
  rw [String.ofList_toList] at piece
  obtain ⟨fault, refused⟩ :=
    Draft.exists_fault_addGroupBy (d := (Draft.empty settings).all) rfl word.path comma
  have words := leads_groupByWords ((endsBefore_selectAll settings).mono (by decide))
  rw [chars]
  refine ((leads_selectAll settings).append words.blank (Stops.blank _)).not_ofText_piece piece
    fun l token => ?_
  let before : Spot := ⟨[.groupBy, .selectFields], .groupKey, (Draft.empty settings).all⟩
  have met : (before.reader [] []).place.meet l =
      (before.reader [] []).place.step l.start (.groupBy text) .afterGroupKey := by
    simp only [before, Place.meet, reader, token]
  exact read_eq_none_of_step met refused

end FieldPath

namespace Lexeme

variable {cs : List Char} {t : Token}

theorem scanFrom_enclosed (piece : IsPiece cs t) (start : Nat) :
    scanFrom start ('(' :: (cs ++ [')'])) =
      [⟨start, start + 1, .sign .openParen, cs ++ [')']⟩,
        ⟨start + 1, start + 1 + byteLength cs, t, [')']⟩,
        ⟨start + 1 + byteLength cs, start + 1 + byteLength cs + 1, .sign .closeParen, []⟩] := by
  have opening : scanFrom start ('(' :: (cs ++ [')'])) =
      ⟨start, start + 1, .sign .openParen, cs ++ [')']⟩ :: scanFrom (start + 1) (cs ++ [')']) :=
    @scanFrom_token '(' [] _ _ rfl rfl start
  have closing (stop : Nat) : scanFrom stop [')'] = [⟨stop, stop + 1, .sign .closeParen, []⟩] := by
    refine (@scanFrom_token ')' [] [] _ rfl rfl stop).trans ?_
    rw [scanFrom]
    rfl
  rw [opening, scanFrom_piece piece (Stops.paren []), closing]

/-- A path in parentheses behind a name is a call of it, or else a parenthesis is left over. -/
theorem ofChars_enclosed {name : List Char} (isPath : IsPath name)
    (plain : Keyword.ofText? (String.ofList name) = none) (identifier : isIdentifier name = true)
    (piece : IsPiece cs t) (start : Nat) :
    ∃ l rest, ofChars start (name ++ '(' :: (cs ++ [')'])) = l :: rest ∧
      l.token ≠ .keyword .distinct ∧ ((∃ m later, rest = m :: later ∧
          (m.token = .sign .openParen ∨ m.token = .sign .closeParen)) ∨
        l.token = .call (String.ofList name) (argumentsOf cs) ∧
          untilClosed .outside 0 (cs ++ [')']) = some cs) := by
  have ends : Token.EndsPath ('(' :: (cs ++ [')'])) := by
    rintro c ⟨⟩
    decide
  obtain ⟨c, tail, rfl, visible, read⟩ := isPath.scan plain ends
  have scanned := (scanFrom_token visible read start).trans
    (congrArg _ (scanFrom_enclosed piece (start + byteLength (c :: tail))))
  have sign (start stop : Nat) (s : Sign) (behind : List Char) :
      (Lexeme.mk start stop (.sign s) behind).call? = none := call?_stops fun _ same => by cases same
  rw [ofChars, List.cons_append, scanned]
  cases closed : untilClosed .outside 0 (cs ++ [')']) with
  | none =>
    have apart : (Lexeme.mk start (start + byteLength (c :: tail))
        (.path (String.ofList (c :: tail))) ('(' :: (cs ++ [')']))).call? = none := by
      simp only [call?, String.toList_ofList, identifier, if_true, closed, Option.map_none]
    rw [assemble_plain apart, assemble_plain (sign ..)]
    exact ⟨_, _, rfl, fun same => (by cases same), .inl ⟨_, _, rfl, .inl rfl⟩⟩
  | some inside =>
    have called : (Lexeme.mk start (start + byteLength (c :: tail))
        (.path (String.ofList (c :: tail))) ('(' :: (cs ++ [')']))).call? =
          some ⟨start, start + byteLength (c :: tail) + 2 + byteLength inside,
            .call (String.ofList (c :: tail)) (argumentsOf inside),
            (cs ++ [')']).drop (inside.length + 1)⟩ := by
      simp only [call?, String.toList_ofList, identifier, if_true, closed, Option.map_some]
    obtain ⟨after, same⟩ := exists_of_untilClosed closed
    rw [assemble, called]
    refine ⟨_, _, rfl, fun same => (by cases same), ?_⟩
    obtain rfl | ⟨front, last, rfl⟩ := after.eq_nil_or_concat
    · obtain rfl := (List.append_inj' same rfl).1
      exact .inr ⟨rfl, rfl⟩
    · have ends : cs ++ [')'] = (inside ++ ')' :: front) ++ [last] := by simpa using same
      have split : cs = inside ++ ')' :: front := (List.append_inj' ends rfl).1
      have length : byteLength cs = byteLength inside + (1 + byteLength front) := by
        rw [split, byteLength_append]
        rfl
      -- The call ends in front of the parenthesis that stands last.
      have first : start + byteLength (c :: tail) <
          start + byteLength (c :: tail) + 2 + byteLength inside := by omega
      have second : start + byteLength (c :: tail) + 1 <
          start + byteLength (c :: tail) + 2 + byteLength inside := by omega
      have third : ¬ start + byteLength (c :: tail) + 1 + byteLength cs <
          start + byteLength (c :: tail) + 2 + byteLength inside := by omega
      simp only [List.dropWhile_cons, first, second, third, decide_true, decide_false, if_true,
        if_false, Bool.false_eq_true]
      rw [assemble_plain (sign ..)]
      exact .inl ⟨_, _, rfl, .inr rfl⟩

end Lexeme

namespace FieldPath

open Statement Reader Spot

variable {text : String} (settings : QuerySettings) {q : Query}

theorem not_ofTexts_upper (isPath : IsPath text.toList)
    (closed : Lexeme.untilClosed .outside 0 (text.toList ++ [')']) = some text.toList)
    (loose : ¬ Solid text.toList) (position : Nat) (c : Call) :
    Call.ofTexts position "UPPER" (Lexeme.argumentsOf text.toList) ≠ .ok c := by
  intro read
  obtain ⟨given, found, made⟩ := Call.of_ofTexts read
  have several := (Lexeme.pass_or_split [] closed).resolve_left loose
  have present : (Text.trimChars text.toList).isEmpty = false := by
    obtain ⟨d, rest, same, -⟩ := isPath.exists_cons
    rw [isPath.trimChars, same]
    rfl
  have length : c.arguments.length =
      (Lexeme.splitArguments .outside 0 [] text.toList).length := by
    rw [length_of_mapM_ok given, Lexeme.argumentsOf, present, if_neg Bool.false_ne_true,
      List.length_map]
  have kind : c.kind = .upper := by
    have upper := FunctionKind.upper.name_spec.2.2.2.1
    exact Option.some.inj (found.symm.trans upper)
  have refused : FunctionKind.upper.takes c.arguments.length = false := by
    simp only [FunctionKind.takes, FunctionKind.arity, Bool.and_eq_false_iff, decide_eq_false_iff_not]
    omega
  rw [kind, Call.make, refused] at made
  cases made

theorem not_ofText_upper (word : IsWord text.toList) (loose : ¬ Solid text.toList) :
    Query.ofText settings ("SELECT UPPER(" ++ text ++ ")") ≠ .ok q := by
  let xs := "UPPER".toList ++ '(' :: (text.toList ++ [')'])
  have chars : "SELECT UPPER(" ++ text ++ ")" =
      String.ofList ("SELECT".toList ++ ' ' :: xs) := by
    simp [xs, ← String.toList_inj]
  obtain ⟨path, plain, identifier, -⟩ := FunctionKind.upper.name_spec
  rw [chars]
  refine (leads_select settings).not_ofText (Stops.blank xs) fun start r reads => ?_
  obtain ⟨l, rest, cut, other, outcome⟩ :=
    Lexeme.ofChars_enclosed path plain identifier word.isPiece (start + 1)
  have cut : Lexeme.ofChars (start + 1) xs = l :: rest := cut
  rw [Lexeme.ofChars_blank, cut] at reads
  obtain ⟨next, first, reads⟩ := readAll_cons reads
  obtain ⟨met, -⟩ := move_some first
  rw [Place.meet_item (.inr rfl) other] at met
  rcases outcome with ⟨m, later, rfl, paren⟩ | ⟨call, closed⟩
  · obtain ⟨last, second, -⟩ := readAll_cons reads
    have behind := Place.eq_await_of_atItem met
    have refused := read_paren_eq_none (r := next) (by rw [behind]; rfl) (by rw [behind]; rfl) paren
    cases refused.symm.trans second
  · have refused := not_ofTexts_upper word.path closed loose l.start
    obtain ⟨c, made⟩ := Place.exists_call_of_atItem met call
    exact refused c made

end FieldPath

namespace Query

/-- A path that is cut as a single lexeme is taken whole where rows are ordered and in conditions.
Where fields may be separated by commas it is taken whole as long as there is no comma in it, and in
a call as long as it does not disturb the parentheses and the commas there, and otherwise it is
refused. -/
theorem ofText_path {text : String} {l : Lexeme} (single : Lexeme.ofText text = [l])
    (token : l.token = .path text) (plain : Text.lowerAscii text ∉ ["null", "true", "false"])
    (settings : QuerySettings) :
    ∃ path, FieldPath.ofText text = .ok path ∧ path.text = text ∧
      ofText settings ("SELECT * ORDER BY " ++ text) =
        .ok { unwritten with settings, selectAll := true, orderBy := [⟨path, .asc⟩] } ∧
      ofText settings ("SELECT * WHERE " ++ text ++ " = 1") =
        .ok { unwritten with
          settings, selectAll := true, filter := ⟨[(.and, .test ⟨path, .equal, .int 1⟩)]⟩ } ∧
      (',' ∉ text.toList →
        ofText settings ("SELECT " ++ text) =
          .ok { unwritten with settings, fields := [.ofExpression (.path path)] } ∧
        ofText settings ("SELECT * GROUP BY " ++ text) =
          .ok { unwritten with settings, selectAll := true, groupBy := [path] }) ∧
      (',' ∈ text.toList → ∀ q, ofText settings ("SELECT " ++ text) ≠ .ok q ∧
        ofText settings ("SELECT * GROUP BY " ++ text) ≠ .ok q) ∧
      (Solid text.toList → ofText settings ("SELECT UPPER(" ++ text ++ ")") =
        .ok { unwritten with
          settings, fields := [.ofExpression (.call ⟨.upper, [.field path]⟩)] }) ∧
      (¬ Solid text.toList → ∀ q, ofText settings ("SELECT UPPER(" ++ text ++ ")") ≠ .ok q) := by
  have word := Lexeme.isWord_of_single single token
  obtain ⟨segments, cuts⟩ := word.path.exists_cuts
  obtain ⟨path, read, rfl⟩ : ∃ path, FieldPath.ofText? text = some path ∧ path.text = text :=
    ⟨_, cuts.denotes.ofText?, rfl⟩
  have written : path.IsWritten := ⟨word, by rw [FieldPath.forQuery, read]⟩
  refine ⟨path, by rw [FieldPath.ofText, read], rfl,
    FieldPath.ofText_orderBy settings written, FieldPath.ofText_filter settings written,
    fun absent => ?_, fun comma q => ?_, fun solid => ?_, fun loose q => ?_⟩
  · have alone : path.StandsAlone := ⟨written, absent⟩
    exact ⟨FieldPath.ofText_select settings alone, FieldPath.ofText_groupBy settings alone⟩
  · exact ⟨FieldPath.not_ofText_select settings word comma,
      FieldPath.not_ofText_groupBy settings word comma⟩
  · exact FieldPath.ofText_upper settings written solid (word.path.ofUnquoted plain)
  · exact FieldPath.not_ofText_upper settings word loose

theorem ofText_path_paren : ∃ path,
    FieldPath.ofText "`a(b`.c" = .ok path ∧
      ofText .default "SELECT `a(b`.c" =
        .ok { unwritten with fields := [.ofExpression (.path path)] } ∧
      ∀ q, ofText .default "SELECT UPPER(`a(b`.c)" ≠ .ok q := by
  have single : Lexeme.ofText "`a(b`.c" = [⟨0, 7, .path "`a(b`.c", []⟩] := by decide +kernel
  have loose : ¬ Solid "`a(b`.c".toList := by
    rw [Solid]
    decide
  obtain ⟨path, read, -, -, -, alone, -, -, refused⟩ :=
    ofText_path single rfl (by decide) .default
  exact ⟨path, read, (alone (by decide)).1, refused loose⟩

/-- A comma between backticks is taken for one between fields. -/
theorem not_ofText_path : ¬ ∀ (text : String) (l : Lexeme), Lexeme.ofText text = [l] →
    l.token = .path text → Text.lowerAscii text ∉ ["null", "true", "false"] →
      ∃ path q, FieldPath.ofText text = .ok path ∧ ofText .default ("SELECT " ++ text) = .ok q ∧
        q.fields = [.ofExpression (.path path)] := by
  intro claim
  have single : Lexeme.ofText "`a,b`" = [⟨0, 5, .path "`a,b`", []⟩] := by decide +kernel
  obtain ⟨path, q, -, accepted, -⟩ := claim _ _ single rfl (by decide)
  have word : IsWord "`a,b`".toList := Lexeme.isWord_of_single single rfl
  exact FieldPath.not_ofText_select .default word (by decide) accepted

end Query

end RecordQuery
