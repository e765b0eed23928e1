import RecordQuery.Proofs.Canonical.Leads
import RecordQuery.Proofs.FieldPath.Comma
import RecordQuery.Proofs.Statement.Kept

namespace RecordQuery

open Lexeme (Spells)
open Token (Stops)

/-- A locator that is read back from its notation. -/
structure Locator.IsWritten (l : Locator) : Prop where
  word : Token.IsLocator l.displayChars ∨ Token.IsWord l.displayChars
  read : Locator.ofText l.display = l
  notAll : l.isAll = false

/-- The conditions of a clause that are read back from their notation. -/
structure ConditionTree.IsWritten (grouping : Bool) (tree : ConditionTree) : Prop where
  settled : tree.children ≠ [] → (Condition.group tree.children).IsSettled grouping
  tests : ∀ p ∈ Condition.testsOf tree.children, p.IsWritten

namespace ConditionTree

/-- The same conditions with AND, which means nothing there, in front of all first ones. -/
def fromAnd (tree : ConditionTree) : ConditionTree :=
  ⟨Condition.fromAndAll tree.children⟩

theorem isEmpty_fromAnd (tree : ConditionTree) : tree.fromAnd.isEmpty = tree.isEmpty := by
  obtain ⟨children⟩ := tree
  cases children <;> rfl

theorem IsWritten.isUniform_fromAnd {grouping : Bool} {tree : ConditionTree}
    (written : tree.IsWritten grouping) (nonempty : tree.fromAnd.children ≠ []) :
    Condition.IsUniform grouping tree.fromAnd.children := by
  have present : tree.children ≠ [] := by
    intro empty
    rw [fromAnd, empty] at nonempty
    exact nonempty rfl
  exact (written.settled present).1.fromAnd

end ConditionTree

/-- Conditions that need no other parentheses than they have are the tree of a clause. -/
theorem ConditionDraft.tree_addAll_of_isUniform {grouping : Bool} {tree : ConditionTree}
    (uniform : tree.children ≠ [] → Condition.IsUniform grouping tree.children) :
    ((empty grouping).addAll tree.children).tree = .ok tree := by
  obtain ⟨children⟩ := tree
  cases children with
  | nil => rfl
  | cons x rest =>
    have closed := OpenGroup.close_addAll_of_isUniform (uniform (List.cons_ne_nil x rest)) .and
    exact congrArg (fun children => Except.ok (ConditionTree.mk children)) closed

/-- A text that names one field where fields may be separated by commas. -/
structure FieldPath.StandsAlone (p : FieldPath) : Prop extends p.IsWritten where
  noComma : ',' ∉ p.text.toList

namespace Draft

variable {d : Draft}

/-- The draft with one more field that the rows are grouped by. -/
def withGroupKey (d : Draft) (p : FieldPath) : Draft :=
  { d with groupBy := d.groupBy ++ [p] }

theorem foldl_withGroupKey (d : Draft) (paths : List FieldPath) :
    paths.foldl withGroupKey d = { d with groupBy := d.groupBy ++ paths } := by
  induction paths generalizing d with
  | nil => simp
  | cons p rest ih => rw [List.foldl_cons, ih, withGroupKey]; simp

theorem addGroupBy_of_standsAlone (settled : d.pending = none) {p : FieldPath}
    (alone : p.StandsAlone) : d.addGroupBy p.text = .done (d.withGroupKey p) := by
  have path : d.groupByPath p.text = .ok (d.withGroupKey p) := by
    rw [groupByPath, checkAlias_of_settled settled, alone.read]
    rfl
  rw [addGroupBy, commaParts_of_isPath alone.word.path alone.noComma, groupByParts, path]
  rfl

end Draft

/-- A clause behind a blank, if there is something in it. -/
def Query.optional (word : String) : Option (List Char) → List Char
  | some body => clause word true body
  | none => []

theorem Direction.exists_keyword (direction : Direction) : ∃ k : Keyword,
    direction.name = k.spelling ∧ Statement.direction? (.keyword k) = some direction := by
  cases direction with
  | asc => exact ⟨.asc, rfl, rfl⟩
  | desc => exact ⟨.desc, rfl, rfl⟩
  | natural => exact ⟨.natsort, rfl, rfl⟩
  | shuffle => exact ⟨.shuffle, rfl, rfl⟩

theorem ConditionClause.exists_keyword (c : ConditionClause) : ∃ k : Keyword,
    c.clause.name = k.spelling ∧ Clause.ofKeyword? k = some c.clause ∧
      ∀ (p : Statement.Place) l,
        p.begin l k c.clause = p.step l.start (.clause c) (.condition .and []) := by
  cases c with
  | filter => exact ⟨.whereWord, rfl, rfl, fun _ _ => rfl⟩
  | having => exact ⟨.having, rfl, rfl, fun _ _ => rfl⟩

/-- The query with other conditions in a clause. -/
def Query.withConditions (q : Query) (c : ConditionClause) (tree : ConditionTree) : Query :=
  match c with
  | .filter => { q with filter := tree }
  | .having => { q with having := tree }

theorem Query.withConditions_conditions (q : Query) (c : ConditionClause) :
    q.withConditions c (q.conditions c) = q := by
  cases q
  cases c <;> rfl

namespace Draft

variable {q : Query} {c : ConditionClause} (aliasable : Bool) (clause : ConditionClause)
  (absent : q.conditions c = ⟨[]⟩)
include absent

theorem conditions_ofQuery :
    ((ofQuery q aliasable clause).setClause c).conditions = .empty true := by
  cases c with
  | filter =>
    change (ConditionDraft.empty true).addAll (q.conditions .filter).children = _
    rw [absent]
    rfl
  | having =>
    change (ConditionDraft.empty true).addAll (q.conditions .having).children = _
    rw [absent]
    rfl

/-- Conditions are added to the draft of a query where there have been none. -/
theorem mapConditions_ofQuery (xs : List (Connective × Condition)) :
    ((ofQuery q aliasable clause).setClause c).mapConditions (fun d => d.addAll xs) =
      ofQuery (q.withConditions c ⟨xs⟩) aliasable c := by
  have unwritten := conditions_ofQuery aliasable clause absent
  cases c with
  | filter =>
    change { (ofQuery q aliasable clause).setClause .filter with
      filter := ((ofQuery q aliasable clause).setClause .filter).conditions.addAll xs } = _
    rw [unwritten]
    rfl
  | having =>
    change { (ofQuery q aliasable clause).setClause .having with
      having := ((ofQuery q aliasable clause).setClause .having).conditions.addAll xs } = _
    rw [unwritten]
    rfl

end Draft

namespace Statement

theorem Leads.path {s s' : Spot} {p : FieldPath} (written : p.IsWritten)
    (reads : ∀ around outer l, l.token = .path p.text →
      (s.reader around outer).read l = some (s'.reader around outer)) :
    Leads p.text.toList s s' := by
  have piece := written.word.isPiece
  rw [String.ofList_toList] at piece
  exact .of_piece piece reads

theorem Leads.comma {s s' : Spot}
    (reads : ∀ around outer l, l.token = .sign .comma →
      (s.reader around outer).read l = some (s'.reader around outer)) : Leads [','] s s' :=
  .of_piece (Token.isPiece_sign .comma) reads

/-- The two words of a clause that names fields. -/
theorem Leads.words {s : Spot} {n : Nat} (ends : s.EndsBefore n) {k : Keyword} {c : Clause}
    (begins : Clause.ofKeyword? k = some c) (next : n ≤ c.place) {first key : Awaiting}
    (goesOn : ∀ (p : Place) l, p.begin l k c = p.goOn first)
    (meets : ∀ (p : Place) (l : Lexeme), p.awaiting = first → l.token = .keyword .byWord →
      p.meet l = p.goOn key) :
    Leads (k.spelling.toList ++ ' ' :: Keyword.byWord.spelling.toList) s
      ⟨c :: s.clauses, key, s.draft⟩ := by
  have byWord : Leads Keyword.byWord.spelling.toList ⟨c :: s.clauses, first, s.draft⟩
      ⟨c :: s.clauses, key, s.draft⟩ :=
    .keyword .byWord fun around outer l word => Reader.read_of_goOn (meets _ l rfl word)
  exact (Leads.begin ends begins next goesOn).append byWord.blank (Stops.blank _)

/-- A clause of fields with commas between them. -/
theorem Leads.byClause {α : Type} {chars : α → List Char} {add : Draft → α → Draft}
    {G : α → Prop} {s : Spot} {clauses : List Clause} {key behind : Awaiting} {words : List Char}
    (begun : Leads words s ⟨clauses, key, s.draft⟩)
    (comma : ∀ d, Leads [','] ⟨clauses, behind, d⟩ ⟨clauses, key, d⟩)
    (item : ∀ d x, d.pending = none → G x →
      Leads (chars x) ⟨clauses, key, d⟩ ⟨clauses, behind, add d x⟩)
    (settles : ∀ d x, (add d x).pending = d.pending) (settled : s.draft.pending = none)
    {x : α} {rest : List α} (good : ∀ y ∈ x :: rest, G y) :
    Leads (words ++ ' ' :: commaSeparated ((x :: rest).map chars)) s
      ⟨clauses, behind, (x :: rest).foldl add s.draft⟩ := by
  have step (d : Draft) (y : α) (later : List α)
      (ready : d.pending = none ∧ ∀ z ∈ y :: later, G z) :
      Leads (chars y) ⟨clauses, key, d⟩ ⟨clauses, behind, add d y⟩ ∧
        (add d y).pending = none ∧ ∀ z ∈ later, G z := by
    obtain ⟨settled, good⟩ := ready
    obtain ⟨first, later⟩ := List.forall_mem_cons.mp good
    exact ⟨item d y settled first, (settles d y).trans settled, later⟩
  obtain ⟨head, ready⟩ := step s.draft x rest ⟨settled, good⟩
  have tail := Leads.flatMap (P := fun d later => d.pending = none ∧ ∀ z ∈ later, G z) comma step
    ready
  have items : Leads (commaSeparated ((x :: rest).map chars)) ⟨clauses, key, s.draft⟩
      ⟨clauses, behind, (x :: rest).foldl add s.draft⟩ := by
    rw [List.map_cons, commaSeparated_cons, List.flatMap_map]
    exact head.append tail (stops_flatMap chars rest)
  exact begun.append items.blank (Stops.blank _)

namespace Spot

open Reader

variable {s : Spot} {q : Query}

theorem leads_groupByWords (ends : s.EndsBefore 5) :
    Leads "GROUP BY".toList s ⟨.groupBy :: s.clauses, .groupKey, s.draft⟩ :=
  .words ends (k := .group) rfl (by decide) (fun _ _ => rfl)
    fun p l awaiting word => by simp only [Place.meet, awaiting, word]

/-- The keys of a GROUP BY clause are added to the draft. -/
theorem leads_groupBy (ends : s.EndsBefore 5) (settled : s.draft.pending = none) {p : FieldPath}
    {rest : List FieldPath} (alone : ∀ path ∈ p :: rest, path.StandsAlone) :
    Leads ("GROUP BY".toList ++ ' ' :: commaSeparated ((p :: rest).map fun p => p.text.toList)) s
      ⟨.groupBy :: s.clauses, .afterGroupKey,
        { s.draft with groupBy := s.draft.groupBy ++ p :: rest }⟩ := by
  have key (d : Draft) (p : FieldPath) (settled : d.pending = none) (alone : p.StandsAlone) :
      Leads p.text.toList ⟨.groupBy :: s.clauses, .groupKey, d⟩
        ⟨.groupBy :: s.clauses, .afterGroupKey, d.withGroupKey p⟩ := by
    refine .path alone.toIsWritten fun around outer l path => ?_
    refine read_of_step l.start (.groupBy p.text) ?_ ?_
    · simp only [Place.meet, reader, path]
    · simp only [NestedDraft.take, NestedDraft.runInner, reader,
        Draft.addGroupBy_of_standsAlone settled alone]
      rfl
  have comma (d : Draft) : Leads [','] ⟨.groupBy :: s.clauses, .afterGroupKey, d⟩
      ⟨.groupBy :: s.clauses, .groupKey, d⟩ :=
    .comma fun around outer l word => read_of_goOn (by
      simp only [Place.meet, reader, Place.atComma, word, if_true])
  have leads := Leads.byClause (leads_groupByWords ends) comma key (fun _ _ => rfl) settled alone
  rw [Draft.foldl_withGroupKey] at leads
  exact leads

/-- What a GROUP BY clause asks for is read back. -/
theorem exists_groupBy (ends : s.EndsBefore 5) (makes : s.Makes q) (absent : q.groupBy = [])
    {paths : List FieldPath} (alone : ∀ p ∈ paths, p.StandsAlone) :
    ∃ s', Leads (Query.clause "GROUP BY" (!paths.isEmpty)
        (commaSeparated (paths.map fun p => p.text.toList))) s s' ∧
      s'.EndsBefore 6 ∧ s'.Makes { q with groupBy := paths } := by
  obtain ⟨clauses, awaiting, d⟩ := s
  obtain ⟨aliasable, clause, rfl⟩ := makes
  cases paths with
  | nil =>
    refine ⟨_, .nil _, ends.mono (by decide), aliasable, clause, ?_⟩
    rw [← absent]
    rfl
  | cons p rest =>
    refine ⟨_, (leads_groupBy ends rfl alone).blank, ends.next (by decide) ?_ _, aliasable, clause,
      ?_⟩
    · exact trivial
    · change { Draft.ofQuery q aliasable clause with groupBy := q.groupBy ++ p :: rest } = _
      rw [absent]
      rfl

theorem leads_orderByWords (ends : s.EndsBefore 6) :
    Leads "ORDER BY".toList s ⟨.orderBy :: s.clauses, .orderKey, s.draft⟩ :=
  .words ends (k := .order) rfl (by decide) (fun _ _ => rfl)
    fun p l awaiting word => by simp only [Place.meet, awaiting, word]

/-- A key that the rows are ordered by is read with its direction and added to the draft. -/
theorem leads_orderKey (clauses : List Clause) {d : Draft} {key : OrderKey}
    (settled : d.pending = none) (written : key.field.IsWritten) :
    Leads key.displayChars ⟨clauses, .orderKey, d⟩
      ⟨clauses, .afterDirection, d.withOrderKey key⟩ := by
  obtain ⟨k, name, direction⟩ := key.direction.exists_keyword
  have field := written.word.isPiece
  rw [String.ofList_toList] at field
  have spells := (Spells.of_piece field).append
    (Spells.of_piece (Token.isPiece_keyword k)).blank (Stops.blank _)
  rw [← name] at spells
  refine ⟨_, spells, fun around outer ls tokens => ?_⟩
  obtain ⟨l, rest, rfl, path, tokens⟩ := List.map_eq_cons_iff.mp tokens
  obtain ⟨m, rfl, word⟩ := List.map_eq_singleton_iff.mp tokens
  have first : (reader ⟨clauses, .orderKey, d⟩ around outer).read l =
      some (reader ⟨clauses, .afterOrderKey l.start key.field.text, d⟩ around outer) :=
    read_of_goOn (by simp only [Place.meet, reader, path])
  rw [readAll_of_read first]
  refine readAll_of_read (read_of_step l.start (.orderBy key.field.text key.direction) ?_ ?_) []
  · simp only [Place.meet, reader, Place.afterOrderKey, word, direction]
  · simp only [NestedDraft.take, NestedDraft.tryInner, reader,
      Draft.addOrderBy_of_read settled key written.read, Outcome.ofExcept]

/-- The keys of an ORDER BY clause are added to the draft. -/
theorem leads_orderBy (ends : s.EndsBefore 6) (settled : s.draft.pending = none) {key : OrderKey}
    {rest : List OrderKey} (written : ∀ k ∈ key :: rest, k.field.IsWritten) :
    Leads ("ORDER BY".toList ++ ' ' :: commaSeparated ((key :: rest).map OrderKey.displayChars)) s
      ⟨.orderBy :: s.clauses, .afterDirection,
        { s.draft with orderBy := s.draft.orderBy ++ key :: rest }⟩ := by
  have comma (d : Draft) : Leads [','] ⟨.orderBy :: s.clauses, .afterDirection, d⟩
      ⟨.orderBy :: s.clauses, .orderKey, d⟩ :=
    .comma fun around outer l word => read_of_goOn (by
      simp only [Place.meet, reader, Place.atComma, word, if_true])
  have item (d : Draft) (k : OrderKey) (settled : d.pending = none) (written : k.field.IsWritten) :
      Leads k.displayChars ⟨.orderBy :: s.clauses, .orderKey, d⟩
        ⟨.orderBy :: s.clauses, .afterDirection, d.withOrderKey k⟩ :=
    leads_orderKey _ settled written
  have leads := Leads.byClause (leads_orderByWords ends) comma item (fun _ _ => rfl) settled written
  rw [Draft.foldl_withOrderKey] at leads
  exact leads

/-- What an ORDER BY clause asks for is read back. -/
theorem exists_orderBy (ends : s.EndsBefore 6) (makes : s.Makes q) (absent : q.orderBy = [])
    {keys : List OrderKey} (written : ∀ key ∈ keys, key.field.IsWritten) :
    ∃ s', Leads (Query.clause "ORDER BY" (!keys.isEmpty)
        (commaSeparated (keys.map OrderKey.displayChars))) s s' ∧
      s'.EndsBefore 7 ∧ s'.Makes { q with orderBy := keys } := by
  obtain ⟨clauses, awaiting, d⟩ := s
  obtain ⟨aliasable, clause, rfl⟩ := makes
  cases keys with
  | nil =>
    refine ⟨_, .nil _, ends.mono (by decide), aliasable, clause, ?_⟩
    rw [← absent]
    rfl
  | cons key rest =>
    refine ⟨_, (leads_orderBy ends rfl written).blank, ends.next (by decide) ?_ _, aliasable,
      clause, ?_⟩
    · exact trivial
    · change { Draft.ofQuery q aliasable clause with orderBy := q.orderBy ++ key :: rest } = _
      rw [absent]
      rfl

/-- The number of rows in a LIMIT or an OFFSET clause is read back. -/
theorem leads_count {k : Keyword} {c : Clause} (ends : s.EndsBefore c.place)
    (begins : Clause.ofKeyword? k = some c)
    (counts : ∀ (p : Place) l, p.begin l k c = p.goOn (.count c)) {n : Nat}
    (bound : n ≤ Draft.countLimit) :
    Leads (k.spelling.toList ++ ' ' :: Decimal.digitChars n) s ⟨c :: s.clauses, .clause,
      if c = .limit then s.draft.setLimit n else s.draft.setOffset n⟩ := by
  have word := Leads.begin ends begins (Nat.le_refl _) counts
  have piece : Token.IsPiece (Decimal.digitChars n)
      (.number (String.ofList (Decimal.digitChars n))) :=
    (Decimal.isNumeral_digitChars false n).isPiece
  have count : count? (String.ofList (Decimal.digitChars n)) = some n := by
    simp [count?, Decimal.isNatural, Decimal.digitChars_ne_nil, Decimal.all_digitChars,
      Decimal.valueOf_digitChars, bound]
  refine word.append (.blank (.of_piece piece fun around outer l number => ?_)) (Stops.blank _)
  refine read_of_step l.start (if c = .limit then .limit n else .offset n) ?_ ?_
  · simp only [Place.meet, reader, number, count]
  · split <;> rfl

theorem exists_offset (ends : s.EndsBefore 7) (makes : s.Makes q) (absent : q.offset = none)
    {offset : Option Nat} (bound : ∀ n ∈ offset, n ≤ Draft.countLimit) :
    ∃ s', Leads (Query.optional "OFFSET" (offset.map Decimal.digitChars)) s s' ∧
      s'.EndsBefore 8 ∧ s'.Makes { q with offset } := by
  obtain ⟨clauses, awaiting, d⟩ := s
  obtain ⟨aliasable, clause, rfl⟩ := makes
  cases offset with
  | none =>
    refine ⟨_, .nil _, ends.mono (by decide), aliasable, clause, ?_⟩
    rw [← absent]
    rfl
  | some n =>
    have leads := leads_count ends (k := .offset) rfl (fun _ _ => rfl) (bound n rfl)
    refine ⟨_, leads.blank, ends.next (by decide) ?_ _, aliasable, clause, rfl⟩
    exact trivial

theorem exists_limit (ends : s.EndsBefore 8) (makes : s.Makes q) (absent : q.limit = none)
    {limit : Option Nat} (bound : ∀ n ∈ limit, n ≤ Draft.countLimit) :
    ∃ s', Leads (Query.optional "LIMIT" (limit.map Decimal.digitChars)) s s' ∧
      s'.EndsBefore 9 ∧ s'.Makes { q with limit } := by
  obtain ⟨clauses, awaiting, d⟩ := s
  obtain ⟨aliasable, clause, rfl⟩ := makes
  cases limit with
  | none =>
    refine ⟨_, .nil _, ends.mono (by decide), aliasable, clause, ?_⟩
    rw [← absent]
    rfl
  | some n =>
    have leads := leads_count ends (k := .limit) rfl (fun _ _ => rfl) (bound n rfl)
    refine ⟨_, leads.blank, ends.next (by decide) ?_ _, aliasable, clause, rfl⟩
    exact trivial

theorem exists_source (ends : s.EndsBefore 1) (makes : s.Makes q) (absent : q.locator = none)
    {locator : Option Locator} (written : ∀ l ∈ locator, l.IsWritten) :
    ∃ s', Leads (Query.optional "FROM" (locator.map Locator.displayChars)) s s' ∧
      s'.EndsBefore 2 ∧ s'.Makes { q with locator } := by
  obtain ⟨clauses, awaiting, d⟩ := s
  obtain ⟨aliasable, clause, rfl⟩ := makes
  cases locator with
  | none =>
    refine ⟨_, .nil _, ends.mono (by decide), aliasable, clause, ?_⟩
    rw [← absent]
    rfl
  | some l =>
    obtain ⟨word, read, notAll⟩ := written l rfl
    have begun := Leads.begin ends (k := .fromWord) rfl (by decide) fun _ _ => rfl
    have source : (Draft.ofQuery q aliasable clause).setSource l.display =
        .ofQuery { q with locator := Option.some l } aliasable clause := by
      simp only [Draft.setSource, read, notAll]
      rfl
    have leads : Leads l.displayChars ⟨.source :: clauses, .source, .ofQuery q aliasable clause⟩
        ⟨.source :: clauses, .clause,
          .ofQuery { q with locator := Option.some l } aliasable clause⟩ := by
      rw [← source]
      rcases word with bracketed | bare
      · refine .of_piece bracketed.isPiece fun around outer m token => ?_
        refine read_of_step m.start (.source l.display) ?_ rfl
        simp only [Place.meet, reader, Place.atSource, token]
        rfl
      · refine .of_piece bare.isPiece fun around outer m token => ?_
        refine read_of_step m.start (.source l.display) ?_ rfl
        simp only [Place.meet, reader, Place.atSource, token]
        rfl
    refine ⟨_, begun.blank.append leads.blank (Stops.blank _), ends.next (by decide) ?_ _,
      aliasable, clause, rfl⟩
    exact trivial

/-- The conditions of a clause are read back, with AND in front of the first ones. -/
theorem leads_conditions {c : ConditionClause} (ends : s.EndsBefore c.clause.place)
    {grouping : Bool} (unwritten : (s.draft.setClause c).conditions = .empty grouping)
    (settled : s.draft.pending = none) {tree : ConditionTree} (written : tree.IsWritten grouping)
    (nonempty : tree.children ≠ []) :
    Leads (c.clause.name.toList ++ ' ' :: Condition.displayChildren tree.children) s
      ⟨c.clause :: s.clauses, .afterCondition [],
        (s.draft.setClause c).mapConditions fun d => d.addAll tree.fromAnd.children⟩ := by
  obtain ⟨k, name, begins, opens⟩ := c.exists_keyword
  have word : Leads k.spelling.toList s
      ⟨c.clause :: s.clauses, .condition .and [], s.draft.setClause c⟩ := by
    refine .keyword k fun around outer l word => ?_
    have met := ends.meet word begins (.inl (Nat.le_refl _)) around outer
    rw [opens] at met
    rw [Reader.read, met]
    rfl
  rw [name]
  refine word.append (.blank ?_) (Stops.blank _)
  obtain ⟨uniform, all⟩ := written.settled nonempty
  obtain ⟨ts, spells, spelled⟩ := Condition.exists_spells_children nonempty all written.tests
  refine ⟨ts, spells, fun around outer ls tokens => ?_⟩
  have reads := readAll_of_chain spelled tokens
    (r := reader ⟨c.clause :: s.clauses, .condition .and [], s.draft.setClause c⟩ around outer) rfl
    settled
  have same : (reader ⟨c.clause :: s.clauses, .condition .and [], s.draft.setClause c⟩ around
      outer).grouping = grouping := congrArg ConditionDraft.grouping unwritten
  rw [same, Condition.builtAll_fromAndAll all] at reads
  exact reads

theorem exists_conditions (c : ConditionClause) (ends : s.EndsBefore c.clause.place)
    (makes : s.Makes q) (absent : q.conditions c = ⟨[]⟩) {tree : ConditionTree}
    (written : tree.IsWritten true) :
    ∃ s', Leads (Query.clause c.clause.name (!tree.isEmpty)
        (Condition.displayChildren tree.children)) s s' ∧
      s'.EndsBefore (c.clause.place + 1) ∧ s'.Makes (q.withConditions c tree.fromAnd) := by
  obtain ⟨clauses, awaiting, d⟩ := s
  obtain ⟨aliasable, clause, rfl⟩ := makes
  obtain ⟨children⟩ := tree
  cases children with
  | nil =>
    refine ⟨_, .nil _, ends.mono (Nat.le_succ _), aliasable, clause, ?_⟩
    change Draft.ofQuery q aliasable clause = .ofQuery (q.withConditions c ⟨[]⟩) aliasable clause
    rw [← absent, q.withConditions_conditions]
  | cons x rest =>
    have unwritten := Draft.conditions_ofQuery aliasable clause absent
    have leads := leads_conditions ends unwritten rfl written (List.cons_ne_nil x rest)
    refine ⟨_, leads.blank, ends.next (Nat.le_refl _) ?_ _, aliasable, c, ?_⟩
    · exact rfl
    · exact Draft.mapConditions_ofQuery aliasable clause absent _

end Spot

end Statement

end RecordQuery
