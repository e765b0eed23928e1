import RecordQuery.Proofs.Statement.Draft

namespace RecordQuery.Statement

/-- A query that is being read: the clauses met in it and its draft. -/
structure Level where
  clauses : List Clause
  draft : Draft

/-- The queries that a reader is in, from the inside to the outside, the finished right query of
the join whose keys are read, and what the reader is in the middle of. -/
structure Standing where
  levels : List Level
  right : Option Draft
  region : Region

/-- How a standing changes when a lexeme is read. -/
inductive Shift : Standing → Standing → Prop
  | goesOn {l : Level} (l' : Level) {rest : List Level} {region : Region} :
      l.draft.Keeps l'.draft → l.clauses ⊆ l'.clauses →
      (∀ c : ConditionClause, c.clause ∈ l'.clauses → c.clause ∈ l.clauses) →
      Shift ⟨l :: rest, none, region⟩ ⟨l' :: rest, none, .clauses⟩
  | opens {l : Level} {d : Draft} {rest : List Level} {region : Region} (c : ConditionClause) :
      l.draft.Keeps d → c.clause ∉ l.clauses → d.clause = c →
      Shift ⟨l :: rest, none, region⟩ ⟨⟨c.clause :: l.clauses, d⟩ :: rest, none, .conditions⟩
  | conditions {l : Level} {d : Draft} {rest : List Level} :
      l.draft.Writes d →
      Shift ⟨l :: rest, none, .conditions⟩ ⟨⟨l.clauses, d⟩ :: rest, none, .conditions⟩
  | beginsRight {l : Level} {rest : List Level} :
      Shift ⟨l :: rest, none, .clauses⟩
        ⟨⟨[], .empty l.draft.settings⟩ :: l :: rest, none, .clauses⟩
  | endsRight {l outer : Level} {d : Draft} {rest : List Level} {region : Region} :
      l.draft.Keeps d → Shift ⟨l :: outer :: rest, none, region⟩ ⟨outer :: rest, some d, .keys⟩
  | keys {levels : List Level} {d : Draft} :
      Shift ⟨levels, some d, .keys⟩ ⟨levels, some d, .keys⟩
  | joins {l : Level} {d d' : Draft} {q : Query} {rest : List Level} :
      d.build = .ok q → l.draft.JoinedTo q d' →
      Shift ⟨l :: rest, some d, .keys⟩ ⟨⟨l.clauses, d'⟩ :: rest, none, .clauses⟩

namespace Reader

/-- A reader stands in its clauses and drafts. While keys are read, the innermost draft is the
right query and the clauses are already those of the query around it. -/
inductive StandsIn (r : Reader) : Standing → Prop
  | outside {rest : List Level} {region : Region} :
      r.place.awaiting.region = region → region ≠ .keys →
      rest.map Level.clauses = r.place.around.map AroundQuery.clauses →
      rest.map Level.draft = r.draft.around →
      StandsIn r ⟨⟨r.place.clauses, r.draft.inner⟩ :: rest, none, region⟩
  | inKeys {d : Draft} {rest : List Level} :
      r.place.awaiting.region = .keys →
      rest.map Level.clauses = r.place.around.map AroundQuery.clauses →
      d :: rest.map Level.draft = r.draft.around →
      StandsIn r ⟨⟨r.place.clauses, d⟩ :: rest, some r.draft.inner, .keys⟩

theorem standsIn_start (settings : QuerySettings) :
    (start settings).StandsIn ⟨[⟨[], .empty settings⟩], none, .clauses⟩ :=
  .outside rfl (by decide) rfl rfl

section

variable {r r' : Reader} {s : Standing} {l : Lexeme}

theorem StandsIn.exists_outside (stands : r.StandsIn s)
    (outside : r.place.awaiting.region ≠ .keys) :
    ∃ rest, s = ⟨⟨r.place.clauses, r.draft.inner⟩ :: rest, none, r.place.awaiting.region⟩ ∧
      rest.map Level.clauses = r.place.around.map AroundQuery.clauses ∧
      rest.map Level.draft = r.draft.around := by
  cases stands with
  | outside same _ clauses drafts => exact ⟨_, by rw [same], clauses, drafts⟩
  | inKeys inside => exact absurd inside outside

theorem StandsIn.exists_inKeys (stands : r.StandsIn s)
    (inside : r.place.awaiting.region = .keys) :
    ∃ d rest, s = ⟨⟨r.place.clauses, d⟩ :: rest, some r.draft.inner, .keys⟩ ∧
      rest.map Level.clauses = r.place.around.map AroundQuery.clauses ∧
      d :: rest.map Level.draft = r.draft.around := by
  cases stands with
  | outside same outside => exact absurd (same.symm.trans inside) outside
  | inKeys _ clauses drafts => exact ⟨_, _, rfl, clauses, drafts⟩

/-- Reading a lexeme shifts the standing of a reader. -/
theorem exists_shift (stands : r.StandsIn s) (reads : r.read l = some r') :
    ∃ s', Shift s s' ∧ r'.StandsIn s' := by
  obtain ⟨goes, takes⟩ := move_some reads
  have leads := Place.leads_meet goes
  generalize (r.place.meet l).steps = steps at leads takes
  obtain ⟨place, draft⟩ := r
  obtain ⟨next, draft'⟩ := r'
  dsimp only at leads takes
  cases leads with
  | goesOn outside heads plain grows known =>
    obtain ⟨rest, rfl, clauses, drafts⟩ := stands.exists_outside outside
    obtain ⟨keeps, same⟩ := NestedDraft.keeps_takeAll plain takes
    refine ⟨_, .goesOn (⟨_, draft'.inner⟩ : Level) keeps grows ?_,
      .outside heads (by decide) clauses (drafts.trans same.symm)⟩
    intro c member
    rcases known _ member with earlier | other
    · exact earlier
    · exact absurd rfl (other c)
  | opens c outside plain fresh =>
    obtain ⟨rest, rfl, clauses, drafts⟩ := stands.exists_outside outside
    obtain ⟨keeps, clause, same⟩ := NestedDraft.opens_takeAll plain takes
    exact ⟨_, .opens c keeps fresh clause,
      .outside rfl (by decide) clauses (drafts.trans same.symm)⟩
  | conditions inside heads condition =>
    obtain ⟨rest, rfl, clauses, drafts⟩ := stands.exists_outside (by rw [inside]; decide)
    obtain ⟨writes, same⟩ := NestedDraft.writes_takeAll condition takes
    rw [inside]
    exact ⟨_, .conditions writes, .outside heads (by decide) clauses (drafts.trans same.symm)⟩
  | beginsRight inside =>
    obtain ⟨rest, rfl, clauses, drafts⟩ := stands.exists_outside (by rw [inside]; decide)
    cases NestedDraft.takeAll_singleton takes
    rw [inside]
    exact ⟨_, .beginsRight, .outside rfl (by decide) (congrArg _ clauses) (congrArg _ drafts)⟩
  | endsRight outside plain nested =>
    obtain ⟨rest, rfl, clauses, drafts⟩ := stands.exists_outside outside
    obtain ⟨keeps, same⟩ := NestedDraft.keeps_takeAll plain takes
    rw [nested] at clauses
    obtain ⟨⟨cs, d⟩, rest, rfl, rfl, around⟩ := List.map_eq_cons_iff.mp clauses
    exact ⟨_, .endsRight keeps, .inKeys rfl around (drafts.trans same.symm)⟩
  | keys inside heads =>
    obtain ⟨d, rest, rfl, clauses, drafts⟩ := stands.exists_inKeys inside
    cases takes
    exact ⟨_, .keys, .inKeys heads clauses drafts⟩
  | joins inside =>
    obtain ⟨d, rest, rfl, clauses, drafts⟩ := stands.exists_inKeys inside
    obtain ⟨q, built, joined, around⟩ :=
      NestedDraft.joinedTo_take drafts.symm (NestedDraft.takeAll_singleton takes)
    exact ⟨_, .joins built joined, .outside rfl (by decide) clauses around.symm⟩

end

end Reader

end RecordQuery.Statement
