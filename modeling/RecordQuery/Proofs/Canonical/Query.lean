import RecordQuery.Proofs.Canonical.Join
import RecordQuery.Proofs.Canonical.Selection

namespace RecordQuery

open Token (Stops)

namespace Query

/-- A query whose clauses are read back from their notation, apart from its joins. -/
structure ClausesWritten (q : Query) : Prop where
  fields : ∀ f ∈ q.fields, f.IsWritten
  apart : q.fields.Pairwise SelectedField.Precedes
  locator : ∀ l ∈ q.locator, l.IsWritten
  filter : q.filter.IsWritten true
  having : q.having.IsWritten true
  groupBy : ∀ p ∈ q.groupBy, p.StandsAlone
  orderBy : ∀ key ∈ q.orderBy, key.field.IsWritten
  limit : ∀ n ∈ q.limit, n ≤ Draft.countLimit
  offset : ∀ n ∈ q.offset, n ≤ Draft.countLimit
  settings : q.settings = .default

/-- A query that is read back from its canonical text. -/
inductive IsWritten : Query → Prop
  | mk {q : Query} : q.ClausesWritten → (∀ j ∈ q.joins, j.terms.IsWritten) →
      (∀ j ∈ q.joins, IsWritten j.right) → IsWritten q

theorem IsWritten.clauses {q : Query} (written : q.IsWritten) : q.ClausesWritten := by
  cases written with
  | mk clauses => exact clauses

mutual

/-- What a query is when it is read back from its canonical text: where nothing is selected there
is a star in it, and first conditions stand behind AND. -/
def reread : Query → Query
  | { selectAll, fields, distinct, locator, joins, filter, having, groupBy, orderBy, limit, offset,
      settings } =>
    { selectAll := selectAll || fields.isEmpty, fields, distinct, locator,
      joins := rereadJoins joins, filter := filter.fromAnd, having := having.fromAnd, groupBy,
      orderBy, limit, offset, settings }

def rereadJoins : List (JoinWith Query) → List (JoinWith Query)
  | [] => []
  | ⟨right, terms⟩ :: rest => ⟨right.reread, terms⟩ :: rereadJoins rest

end

theorem stops_clause (word : String) (present : Bool) (body : List Char) :
    Stops (clause word present body) := by
  unfold clause
  split
  · exact Stops.blank _
  · exact Stops.nil

theorem stops_optional (word : String) (body : Option (List Char)) :
    Stops (optional word body) := by
  cases body with
  | none => exact Stops.nil
  | some cs => exact Stops.blank _

theorem displayChars_eq (selectAll : Bool) (fields : List SelectedField) (distinct : Bool)
    (locator : Option Locator) (joins : List (JoinWith Query)) (filter having : ConditionTree)
    (groupBy : List FieldPath) (orderBy : List OrderKey) (limit offset : Option Nat)
    (settings : QuerySettings) :
    displayChars ⟨selectAll, fields, distinct, locator, joins, filter, having, groupBy,
      orderBy, limit, offset, settings⟩ =
      "SELECT".toList ++ (if distinct then " DISTINCT".toList else []) ++
        ' ' :: selectionChars selectAll fields ++
        optional "FROM" (locator.map Locator.displayChars) ++
        displayJoins joins ++
        clause "WHERE" (!filter.isEmpty) (Condition.displayChildren filter.children) ++
        clause "HAVING" (!having.isEmpty) (Condition.displayChildren having.children) ++
        clause "GROUP BY" (!groupBy.isEmpty)
          (commaSeparated (groupBy.map fun path => path.text.toList)) ++
        clause "ORDER BY" (!orderBy.isEmpty)
          (commaSeparated (orderBy.map OrderKey.displayChars)) ++
        optional "OFFSET" (offset.map Decimal.digitChars) ++
        optional "LIMIT" (limit.map Decimal.digitChars) := by
  unfold displayChars
  cases locator <;> cases offset <;> cases limit <;>
    simp only [optional, Option.map_some, Option.map_none]

theorem displayJoins_cons (j : JoinWith Query) (rest : List (JoinWith Query)) :
    displayJoins (j :: rest) = ' ' :: j.terms.kind.name.toList ++ " JOIN (".toList ++
      j.right.displayChars ++ ')' :: j.terms.displayChars ++ displayJoins rest := by
  rw [displayJoins, JoinTerms.displayChars, List.append_assoc _ (clause ..)]
  simp only [List.append_assoc, List.cons_append]
  cases j.terms.aliasName <;> rfl

theorem stops_displayJoins (joins : List (JoinWith Query)) : Stops (displayJoins joins) := by
  match joins with
  | [] => exact Stops.nil
  | ⟨right, terms⟩ :: rest =>
    unfold displayJoins
    exact Stops.blank _

/-- A query of which nothing has been written. -/
def unwritten : Query where
  selectAll := false
  fields := []
  distinct := false
  locator := none
  joins := []
  filter := ⟨[]⟩
  having := ⟨[]⟩
  groupBy := []
  orderBy := []
  limit := none
  offset := none
  settings := .default

end Query

theorem Draft.build_ofQuery {q : Query} (settings : q.settings = .default)
    (filter : q.filter.children ≠ [] → Condition.IsUniform true q.filter.children)
    (having : q.having.children ≠ [] → Condition.IsUniform true q.having.children)
    (aliasable : Bool) (clause : ConditionClause) :
    (ofQuery q aliasable clause).build = .ok q := by
  have first : (ofQuery q aliasable clause).filter.tree = .ok q.filter :=
    ConditionDraft.tree_addAll_of_isUniform filter
  have second : (ofQuery q aliasable clause).having.tree = .ok q.having :=
    ConditionDraft.tree_addAll_of_isUniform having
  unfold build
  rw [first, second]
  change Except.ok { q with settings := .default } = Except.ok q
  rw [← settings]
  cases q
  rfl

theorem Draft.build_reread {q : Query} (written : q.ClausesWritten) (aliasable : Bool)
    (clause : ConditionClause) : (ofQuery q.reread aliasable clause).build = .ok q.reread := by
  obtain ⟨selectAll, fields, distinct, locator, joins, filter, having, groupBy, orderBy, limit,
    offset, settings⟩ := q
  have first : filter.IsWritten true := written.filter
  have second : having.IsWritten true := written.having
  rw [Query.reread]
  refine build_ofQuery ?_ first.isUniform_fromAnd second.isUniform_fromAnd aliasable clause
  exact written.settings

namespace Statement

open Reader

namespace Spot

theorem endsBefore_start (settings : QuerySettings) : (start settings).EndsBefore 0 :=
  ⟨trivial, nofun⟩

theorem exists_select {fields : List SelectedField} (written : ∀ f ∈ fields, f.IsWritten)
    (apart : fields.Pairwise SelectedField.Precedes) (selectAll distinct : Bool) :
    ∃ s, Leads ("SELECT".toList ++ (if distinct then " DISTINCT".toList else []) ++
        ' ' :: selectionChars selectAll fields) (.start .default) s ∧ s.EndsBefore 1 ∧
      s.Makes
        { Query.unwritten with selectAll := selectAll || fields.isEmpty, fields, distinct } := by
  have ends := endsBefore_start .default
  have word := Leads.begin ends (k := .select) rfl (by decide) fun _ _ => rfl
  cases distinct with
  | false =>
    obtain ⟨behind, aliasable, endsItem, leads⟩ :=
      exists_selection [.selectFields] (d := .empty .default) (.inr rfl) rfl rfl rfl written apart
        selectAll
    refine ⟨_, word.append leads.blank (Stops.blank _),
      ⟨endsItem.endsClause, fun c member => ?_⟩, aliasable, .filter, rfl⟩
    rw [List.mem_singleton.mp member]
    decide
  | true =>
    have second : Leads Keyword.distinct.spelling.toList
        ⟨[.selectFields], .itemAfterSelect, .empty .default⟩
        ⟨[.selectFields], .item, (Draft.empty .default).setDistinct⟩ := by
      refine .keyword .distinct fun around outer l word => ?_
      refine read_of_step l.start .distinct ?_ rfl
      simp only [Place.meet, Spot.reader, word]
    obtain ⟨behind, aliasable, endsItem, leads⟩ :=
      exists_selection [.selectFields] (d := (Draft.empty .default).setDistinct) (.inl rfl) rfl rfl
        rfl written apart selectAll
    refine ⟨_, (word.append second.blank (Stops.blank _)).append leads.blank (Stops.blank _),
      ⟨endsItem.endsClause, fun c member => ?_⟩, aliasable, .filter, rfl⟩
    rw [List.mem_singleton.mp member]
    decide

/-- Joins are read back one after the other as soon as their right queries are. -/
theorem exists_joins {joins : List (JoinWith Query)} (written : ∀ j ∈ joins, j.terms.IsWritten)
    (rights : ∀ j ∈ joins, ∃ inner, Leads j.right.displayChars (start .default) inner ∧
      inner.awaiting.EndsClause ∧ inner.draft.build = .ok j.right.reread)
    {s : Spot} {q : Query} (ends : s.EndsBefore 3) (makes : s.Makes q) :
    ∃ s', Leads (Query.displayJoins joins) s s' ∧ s'.EndsBefore 3 ∧
      s'.Makes { q with joins := q.joins ++ Query.rereadJoins joins } := by
  induction joins generalizing s q with
  | nil =>
    refine ⟨s, .nil s, ends, ?_⟩
    rw [Query.rereadJoins, List.append_nil]
    exact makes
  | cons j rest ih =>
    obtain ⟨first, later⟩ := List.forall_mem_cons.mp written
    obtain ⟨⟨inner, leads, behind, built⟩, others⟩ := List.forall_mem_cons.mp rights
    obtain ⟨middle, head, endsAgain, makesAgain⟩ := exists_join ends makes leads behind built first
    obtain ⟨s', tail, endsAll, makesAll⟩ := ih later others endsAgain makesAgain
    refine ⟨s', ?_, endsAll, ?_⟩
    · rw [Query.displayJoins_cons]
      exact head.append tail (Query.stops_displayJoins rest)
    · rw [Query.rereadJoins]
      simpa only [List.append_assoc, List.singleton_append] using makesAll

/-- A query is read back from its canonical text, whatever stands around it. -/
theorem exists_query {q : Query} (written : q.IsWritten) :
    ∃ s, Leads q.displayChars (start .default) s ∧ s.EndsBefore 9 ∧ s.Makes q.reread := by
  induction written with
  | @mk q clauses terms rights ih =>
    have inner (j : JoinWith Query) (member : j ∈ q.joins) :
        ∃ inner, Leads j.right.displayChars (start .default) inner ∧
          inner.awaiting.EndsClause ∧ inner.draft.build = .ok j.right.reread := by
      obtain ⟨inner, leads, ends, aliasable, clause, draft⟩ := ih j member
      refine ⟨inner, leads, ends.awaiting, ?_⟩
      rw [draft]
      exact Draft.build_reread (rights j member).clauses aliasable clause
    obtain ⟨selectAll, fields, distinct, locator, joins, filter, having, groupBy, orderBy, limit,
      offset, settings⟩ := q
    obtain ⟨s₁, leads₁, ends₁, makes₁⟩ :=
      exists_select clauses.fields clauses.apart selectAll distinct
    obtain ⟨s₂, leads₂, ends₂, makes₂⟩ := exists_source ends₁ makes₁ rfl clauses.locator
    obtain ⟨s₃, leads₃, ends₃, makes₃⟩ := exists_joins terms inner (ends₂.mono (by decide)) makes₂
    obtain ⟨s₄, leads₄, ends₄, makes₄⟩ := exists_conditions .filter ends₃ makes₃ rfl clauses.filter
    obtain ⟨s₅, leads₅, ends₅, makes₅⟩ := exists_conditions .having ends₄ makes₄ rfl clauses.having
    obtain ⟨s₆, leads₆, ends₆, makes₆⟩ := exists_groupBy ends₅ makes₅ rfl clauses.groupBy
    obtain ⟨s₇, leads₇, ends₇, makes₇⟩ := exists_orderBy ends₆ makes₆ rfl clauses.orderBy
    obtain ⟨s₈, leads₈, ends₈, makes₈⟩ := exists_offset ends₇ makes₇ rfl clauses.offset
    obtain ⟨s₉, leads₉, ends₉, makes₉⟩ := exists_limit ends₈ makes₈ rfl clauses.limit
    refine ⟨s₉, ?_, ends₉, ?_⟩
    · have selected := (leads₁.append leads₂ (Query.stops_optional _ _)).append leads₃
        (Query.stops_displayJoins joins)
      have conditioned := (selected.append leads₄ (Query.stops_clause _ _ _)).append leads₅
        (Query.stops_clause _ _ _)
      have ordered := (conditioned.append leads₆ (Query.stops_clause _ _ _)).append leads₇
        (Query.stops_clause _ _ _)
      have paged := (ordered.append leads₈ (Query.stops_optional _ _)).append leads₉
        (Query.stops_optional _ _)
      rw [Query.displayChars_eq]
      exact paged
    · obtain rfl : settings = .default := clauses.settings
      rw [Query.reread]
      exact makes₉

end Spot

theorem Awaiting.EndsClause.finish {p : Place} (ends : p.awaiting.EndsClause)
    (outside : p.around = []) (stop : Nat) : p.finish stop = ([], none) := by
  have outermost : p.atEnd stop = none := by rw [Place.atEnd, outside]
  cases awaiting : p.awaiting with
  | afterCondition parens =>
    rw [awaiting] at ends
    obtain rfl : parens = [] := ends
    rw [Place.finish, awaiting, outermost]
  | clause => rw [Place.finish, awaiting, outermost]
  | afterItem => rw [Place.finish, awaiting, outermost]
  | afterItemAlias => rw [Place.finish, awaiting, outermost]
  | afterGroupKey => rw [Place.finish, awaiting, outermost]
  | afterDirection => rw [Place.finish, awaiting, outermost]
  | _ =>
    rw [awaiting] at ends
    exact ends.elim

/-- A text that leads to the end of a clause asks for what the draft there is built to. -/
theorem Leads.ofText {settings : QuerySettings} {cs : List Char} {s : Spot} {q : Query}
    (leads : Leads cs (.start settings) s) (ends : s.awaiting.EndsClause)
    (built : s.draft.build = .ok q) : Query.ofText settings (String.ofList cs) = .ok q := by
  obtain ⟨ts, spells, reads⟩ := leads
  have finished (stop : Nat) : (s.reader [] []).finish stop = some (.ofDraft s.draft) := by
    have ends := ends.finish (p := (s.reader [] []).place) rfl stop
    rw [Reader.finish, ends]
    rfl
  refine Reader.ofText_of_readAll (reads [] [] _ spells.ofText_map) finished ?_
  rw [NestedDraft.outermost, NestedDraft.ofDraft, List.getLast?_nil, Option.getD_none]
  exact built

end Statement

namespace Query

/-- The canonical text of a query asks for the query. -/
theorem ofText_display {q : Query} (written : q.IsWritten) :
    ofText .default q.display = .ok q.reread := by
  obtain ⟨s, leads, ends, aliasable, clause, draft⟩ := Statement.Spot.exists_query written
  refine leads.ofText ends.awaiting ?_
  rw [draft]
  exact Draft.build_reread written.clauses aliasable clause

theorem selectionChars_all (selectAll : Bool) (fields : List SelectedField) :
    selectionChars (selectAll || fields.isEmpty) fields = selectionChars selectAll fields := by
  rw [selectionChars, selectionChars, Bool.or_assoc, Bool.or_self]

mutual

/-- What is read back from a canonical text has the same canonical text. -/
theorem displayChars_reread (q : Query) : q.reread.displayChars = q.displayChars := by
  match q with
  | { selectAll, fields, distinct, locator, joins, filter, having, groupBy, orderBy, limit, offset,
      settings } =>
    have same (tree : ConditionTree) : Condition.displayChildren tree.fromAnd.children =
        Condition.displayChildren tree.children :=
      Condition.displayChildren_fromAndAll tree.children
    rw [reread, displayChars_eq, displayChars_eq, selectionChars_all,
      displayJoins_rereadJoins joins, filter.isEmpty_fromAnd, having.isEmpty_fromAnd, same, same]

theorem displayJoins_rereadJoins (joins : List (JoinWith Query)) :
    displayJoins (rereadJoins joins) = displayJoins joins := by
  match joins with
  | [] => rfl
  | ⟨right, terms⟩ :: rest =>
    rw [rereadJoins, displayJoins, displayJoins, displayChars_reread right,
      displayJoins_rereadJoins rest]

end

end Query

end RecordQuery
