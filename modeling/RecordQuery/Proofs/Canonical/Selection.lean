import RecordQuery.Proofs.Canonical.Clause

namespace RecordQuery

open Token (IsWord Stops)

/-- An expression that is read back from its notation. -/
def Expression.IsWritten : Expression → Prop
  | .path p => p.StandsAlone
  | .call c => c.IsWritten

namespace SelectedField

/-- A field that is read back from its notation. -/
structure IsWritten (f : SelectedField) : Prop where
  expression : f.expression.IsWritten
  word : f.isAlias = true → IsWord f.name.toList
  own : f.isAlias = false → f.name = f.expression.display

/-- Whether a field may stand behind another one. It is selected by its notation before it gets its
alias, so both must differ from the key of the other. -/
def Precedes (g f : SelectedField) : Prop :=
  g.name ≠ f.expression.display ∧ g.name ≠ f.name

end SelectedField

namespace Draft

/-- The draft with one more field. -/
def withField (d : Draft) (f : SelectedField) : Draft :=
  { d with fields := d.fields ++ [f], aliasable := !f.isAlias }

variable {d : Draft}

theorem fields_foldl_withField (d : Draft) (fields : List SelectedField) :
    ∃ aliasable, fields.foldl withField d = { d with fields := d.fields ++ fields, aliasable } := by
  induction fields generalizing d with
  | nil => exact ⟨d.aliasable, by simp⟩
  | cons f rest ih =>
    obtain ⟨aliasable, same⟩ := ih (d.withField f)
    refine ⟨aliasable, ?_⟩
    rw [List.foldl_cons, same, withField]
    simp

theorem addField_of_precedes {f : SelectedField} (fresh : ∀ g ∈ d.fields, g.name ≠ f.name)
    (plain : f.isAlias = false) : d.addField f = .ok (d.withField f) := by
  have absent : (d.fields.any fun g => g.name == f.name) = false := by
    rw [List.any_eq_false]
    exact fun g member => by simpa using fresh g member
  rw [addField, absent, withField, plain]
  rfl

/-- A field gets its alias right behind its notation. -/
theorem setAlias_withField {f : SelectedField} (word : IsWord f.name.toList)
    (named : f.isAlias = true) (fresh : ∀ g ∈ d.fields, g.Precedes f) :
    (d.withField (.ofExpression f.expression)).setAlias f.name = .ok (d.withField f) := by
  have trimmed : Text.trim f.name = f.name := by
    rw [Text.trim, word.path.trimChars, String.ofList_toList]
  have nonempty : f.name ≠ "" := by
    obtain ⟨c, rest, same, -⟩ := word.path.exists_cons
    intro empty
    rw [empty] at same
    cases same
  have free : ¬ ((SelectedField.ofExpression f.expression).name ≠ f.name ∧
      (d.withField (.ofExpression f.expression)).fields.any (fun g => g.name == f.name)) := by
    rintro ⟨other, taken⟩
    obtain ⟨g, member, same⟩ := List.any_eq_true.mp taken
    rcases List.mem_append.mp member with before | last
    · exact (fresh g before).2 (beq_iff_eq.mp same)
    · rw [List.mem_singleton.mp last] at same
      exact other (beq_iff_eq.mp same)
  have ready : (d.withField (.ofExpression f.expression)).aliasable = true := rfl
  have last : (d.withField (.ofExpression f.expression)).fields.getLast? =
      Option.some (.ofExpression f.expression) := List.getLast?_concat
  have aliased : (SelectedField.ofExpression f.expression).withAlias f.name = f := by
    rw [SelectedField.withAlias, SelectedField.ofExpression, ← named]
  rw [setAlias, trimmed]
  simp only [if_neg nonempty, last]
  rw [if_pos ready, if_neg free, aliased]
  simp only [withField, List.dropLast_concat, named]
  rfl

end Draft

namespace Statement

open Reader

/-- What is awaited where a field may stand. -/
def Awaiting.AwaitsItem (awaiting : Awaiting) : Prop :=
  awaiting = .item ∨ awaiting = .itemAfterSelect

theorem Place.meet_item {p : Place} {l : Lexeme} (awaits : p.awaiting.AwaitsItem)
    (other : l.token ≠ .keyword .distinct) : p.meet l = p.atItem l := by
  rcases awaits with awaiting | awaiting
  · simp only [meet, awaiting]
  · simp only [meet, awaiting]

variable (clauses : List Clause) {awaiting : Awaiting} {d : Draft}

theorem leads_expression (awaits : awaiting.AwaitsItem) (settled : d.pending = none)
    {e : Expression} (written : e.IsWritten) (fresh : ∀ g ∈ d.fields, g.name ≠ e.display) :
    Leads e.displayChars ⟨clauses, awaiting, d⟩
      ⟨clauses, .afterItem, d.withField (.ofExpression e)⟩ := by
  have added := Draft.addField_of_precedes (f := .ofExpression e) fresh rfl
  cases e with
  | path p =>
    refine .path written.toIsWritten fun around outer l token => ?_
    have met : (Spot.reader ⟨clauses, awaiting, d⟩ around outer).place.meet l =
        (Spot.reader ⟨clauses, awaiting, d⟩ around outer).place.step l.start (.select p.text)
          .afterItem := by
      rw [Place.meet_item awaits (by simp [token]), Place.atItem, token]
    have selected : d.select p.text = .done (d.withField (.ofExpression (.path p))) := by
      have path : d.selectPath p.text = .ok (d.withField (.ofExpression (.path p))) := by
        rw [Draft.selectPath, Draft.checkAlias_of_settled settled, written.read]
        exact added
      rw [Draft.select, Draft.commaParts_of_isPath written.word.path written.noComma,
        Draft.selectParts, if_neg written.word.path.ne_star, path]
      rfl
    refine read_of_step _ _ met ?_
    simp only [NestedDraft.take, NestedDraft.runInner, Spot.reader, selected]
    rfl
  | call c =>
    obtain ⟨written, made⟩ := written
    have all := Argument.forall_readsBack _ written
    refine ⟨_, Call.spells all, fun around outer ls tokens => ?_⟩
    obtain ⟨l, rfl, token⟩ := List.map_eq_singleton_iff.mp tokens
    have read := Call.ofTexts_displayList made all l.start
    have met : (Spot.reader ⟨clauses, awaiting, d⟩ around outer).place.meet l =
        (Spot.reader ⟨clauses, awaiting, d⟩ around outer).place.step l.start (.selectCall c)
          .afterItem := by
      rw [Place.meet_item awaits (by simp [token]), Place.atItem, token]
      simp only [read]
    refine readAll_of_read (read_of_step _ _ met ?_) []
    have selected : d.selectCall c = .ok (d.withField (.ofExpression (.call c))) := added
    simp only [NestedDraft.take, NestedDraft.tryInner, Spot.reader, selected, Outcome.ofExcept]

/-- What is awaited behind the field that was selected last. -/
def behindField (d : Draft) : Awaiting :=
  if d.aliasable then .afterItem else .afterItemAlias

/-- What is awaited behind an item. -/
def Awaiting.EndsItem (awaiting : Awaiting) : Prop :=
  awaiting = .afterItem ∨ awaiting = .afterItemAlias

theorem endsItem_behindField (d : Draft) : (behindField d).EndsItem := by
  unfold behindField
  split
  · exact .inl rfl
  · exact .inr rfl

theorem Awaiting.EndsItem.endsClause (ends : awaiting.EndsItem) : awaiting.EndsClause := by
  rcases ends with rfl | rfl <;> exact trivial

theorem leads_field (awaits : awaiting.AwaitsItem) (settled : d.pending = none)
    {f : SelectedField} (written : f.IsWritten) (fresh : ∀ g ∈ d.fields, g.Precedes f) :
    Leads f.displayChars ⟨clauses, awaiting, d⟩
      ⟨clauses, behindField (d.withField f), d.withField f⟩ := by
  have expression := leads_expression clauses awaits settled written.expression
    fun g member => (fresh g member).1
  cases named : f.isAlias with
  | false =>
    have own : SelectedField.ofExpression f.expression = f := by
      rw [SelectedField.ofExpression, ← written.own named, ← named]
    have behind : behindField (d.withField f) = .afterItem := by
      simp [behindField, Draft.withField, named]
    rw [own] at expression
    rw [SelectedField.displayChars, named, if_neg Bool.false_ne_true, List.append_nil, behind]
    exact expression
  | true =>
    have behind : behindField (d.withField f) = .afterItemAlias := by
      simp [behindField, Draft.withField, named]
    have word : Leads Keyword.asWord.spelling.toList
        ⟨clauses, .afterItem, d.withField (.ofExpression f.expression)⟩
        ⟨clauses, .itemAlias, d.withField (.ofExpression f.expression)⟩ :=
      .keyword .asWord fun around outer l word => read_of_goOn (by
        simp only [Place.meet, Spot.reader, word])
    have piece := (written.word named).isPiece
    have name : Leads f.name.toList
        ⟨clauses, .itemAlias, d.withField (.ofExpression f.expression)⟩
        ⟨clauses, .afterItemAlias, d.withField f⟩ := by
      refine .of_piece piece fun around outer l token => ?_
      refine read_of_step l.start (.setAlias f.name) ?_ ?_
      · simp only [Place.meet, Spot.reader, token, name?, String.ofList_toList]
      · simp only [NestedDraft.take, NestedDraft.tryInner, Spot.reader,
          Draft.setAlias_withField (written.word named) named fresh, Outcome.ofExcept]
    rw [SelectedField.displayChars, named, if_pos rfl, behind]
    exact expression.append (word.blank.append name.blank (Stops.blank _)) (Stops.blank _)

theorem Awaiting.EndsItem.leads_comma (ends : awaiting.EndsItem) (d : Draft) :
    Leads [','] ⟨clauses, awaiting, d⟩ ⟨clauses, .item, d⟩ := by
  refine .comma fun around outer l word => read_of_goOn ?_
  rcases ends with rfl | rfl <;>
    simp only [Place.meet, Spot.reader, Place.atComma, word, if_true]

/-- Fields that may stand behind those of a draft. -/
structure Follow (d : Draft) (fields : List SelectedField) : Prop where
  settled : d.pending = none
  written : ∀ f ∈ fields, f.IsWritten
  apart : (d.fields ++ fields).Pairwise SelectedField.Precedes

theorem Follow.cons {f : SelectedField} {rest : List SelectedField}
    (follow : Follow d (f :: rest)) (awaits : awaiting.AwaitsItem) :
    Leads f.displayChars ⟨clauses, awaiting, d⟩
        ⟨clauses, behindField (d.withField f), d.withField f⟩ ∧ Follow (d.withField f) rest := by
  obtain ⟨settled, written, apart⟩ := follow
  obtain ⟨first, later⟩ := List.forall_mem_cons.mp written
  have fresh := (List.pairwise_append.mp apart).2.2
  refine ⟨leads_field clauses awaits settled first fun g member => fresh g member f
    (List.mem_cons_self ..), settled, later, ?_⟩
  rw [Draft.withField, List.append_assoc]
  exact apart

/-- Fields behind an item are read back one after the other. -/
theorem Follow.exists_tail {fields : List SelectedField} (follow : Follow d fields)
    (ends : awaiting.EndsItem) :
    ∃ behind aliasable, behind.EndsItem ∧
      Leads (fields.flatMap fun f => ',' :: ' ' :: f.displayChars) ⟨clauses, awaiting, d⟩
        ⟨clauses, behind, { d with fields := d.fields ++ fields, aliasable }⟩ := by
  cases fields with
  | nil =>
    refine ⟨awaiting, d.aliasable, ends, ?_⟩
    rw [List.append_nil]
    exact .nil _
  | cons f rest =>
    obtain ⟨first, later⟩ := follow.cons clauses (.inl rfl)
    have tail := Leads.flatMap (fun d => (endsItem_behindField d).leads_comma clauses d)
      (fun d f rest follow => Follow.cons clauses follow (.inl rfl)) later
    obtain ⟨aliasable, same⟩ := (d.withField f).fields_foldl_withField rest
    have leads := ((ends.leads_comma clauses d).append first.blank (Stops.blank _)).append tail
      (stops_flatMap _ rest)
    have draft : rest.foldl Draft.withField (d.withField f) =
        { d with fields := d.fields ++ f :: rest, aliasable } := by
      rw [same, Draft.withField]
      simp
    refine ⟨behindField (rest.foldl Draft.withField (d.withField f)), aliasable,
      endsItem_behindField _, ?_⟩
    rw [← draft, List.flatMap_cons]
    exact leads

theorem leads_star (awaits : awaiting.AwaitsItem) (d : Draft) :
    Leads ['*'] ⟨clauses, awaiting, d⟩ ⟨clauses, .afterItem, d.all⟩ := by
  refine .of_piece (Token.isPiece_sign .star) fun around outer l token => ?_
  refine read_of_step l.start .selectAll ?_ rfl
  rw [Place.meet_item awaits (by simp [token]), Place.atItem, token]

/-- Selected fields are read back, with a star in front where there are none. -/
theorem exists_selection (awaits : awaiting.AwaitsItem) (settled : d.pending = none)
    (unwritten : d.fields = []) (notAll : d.selectAll = false) {fields : List SelectedField}
    (written : ∀ f ∈ fields, f.IsWritten) (apart : fields.Pairwise SelectedField.Precedes)
    (selectAll : Bool) :
    ∃ behind aliasable, behind.EndsItem ∧
      Leads (selectionChars selectAll fields) ⟨clauses, awaiting, d⟩ ⟨clauses, behind,
        { d with selectAll := selectAll || fields.isEmpty, fields, aliasable }⟩ := by
  by_cases star : (selectAll || fields.isEmpty) = true
  · have follow : Follow d.all fields := ⟨settled, written, apart⟩
    obtain ⟨behind, aliasable, ends, tail⟩ := follow.exists_tail clauses (.inl rfl)
    refine ⟨behind, aliasable, ends, ?_⟩
    rw [selectionChars, if_pos star, star, List.singleton_append, commaSeparated_cons,
      List.flatMap_map]
    exact (leads_star clauses awaits d).append tail (stops_flatMap _ fields)
  · obtain ⟨rfl, present⟩ : selectAll = false ∧ fields ≠ [] := by simpa using star
    obtain ⟨f, rest, rfl⟩ := List.exists_cons_of_ne_nil present
    have follow : Follow d (f :: rest) := ⟨settled, written, by rwa [unwritten]⟩
    obtain ⟨first, later⟩ := follow.cons clauses awaits
    obtain ⟨behind, aliasable, ends, tail⟩ :=
      later.exists_tail clauses (endsItem_behindField _)
    refine ⟨behind, aliasable, ends, ?_⟩
    rw [selectionChars, if_neg star, List.nil_append, List.map_cons, commaSeparated_cons,
      List.flatMap_map]
    have leads := first.append tail (stops_flatMap _ rest)
    simpa [Draft.withField, unwritten, notAll] using leads

end Statement

end RecordQuery
