import RecordQuery.Proofs.Statement.Levels

namespace RecordQuery

/-- The conditions of a clause. -/
def Query.conditions (q : Query) : ConditionClause → ConditionTree
  | .filter => q.filter
  | .having => q.having

/-- A query is a part of itself and of the queries that it is joined to. -/
inductive Query.PartOf : Query → Query → Prop
  | self (q : Query) : PartOf q q
  | right {part q : Query} {j : Join} : j ∈ q.joins → PartOf part j.right → PartOf part q

theorem Draft.build_ok {d : Draft} {q : Query} (built : d.build = .ok q) :
    (∀ c, (d.conditionsOf c).tree = .ok (q.conditions c)) ∧ q.joins = d.joins := by
  obtain ⟨first, second, filter, having, rfl⟩ := exists_of_build built
  refine ⟨fun c => ?_, rfl⟩
  cases c with
  | filter => exact filter
  | having => exact having

namespace Statement

/-- The clauses that have not been met yet in a query have no conditions. -/
structure Level.Fresh (settings : QuerySettings) (l : Level) : Prop where
  same : l.draft.settings = settings
  unmet : ∀ c : ConditionClause, c.clause ∉ l.clauses →
    l.draft.conditionsOf c = .empty settings.grouping

/-- Conditions are only written where their clause has been met. -/
structure Standing.Fresh (settings : QuerySettings) (s : Standing) : Prop where
  levels : ∀ l ∈ s.levels, l.Fresh settings
  writing : s.region = .conditions → ∀ l ∈ s.levels.head?, l.draft.clause.clause ∈ l.clauses

theorem Level.fresh_empty (settings : QuerySettings) :
    Level.Fresh settings ⟨[], .empty settings⟩ :=
  ⟨rfl, fun c _ => by cases c <;> rfl⟩

theorem fresh_start (settings : QuerySettings) :
    Standing.Fresh settings ⟨[⟨[], .empty settings⟩], none, .clauses⟩ := by
  refine ⟨fun l member => ?_, fun writing => nomatch writing⟩
  rw [List.mem_singleton.mp member]
  exact Level.fresh_empty settings

theorem Shift.fresh {settings : QuerySettings} {s s' : Standing} (shift : Shift s s')
    (fresh : s.Fresh settings) : s'.Fresh settings := by
  obtain ⟨levels, writing⟩ := fresh
  cases shift with
  | goesOn _ keeps grows known =>
    obtain ⟨first, rest⟩ := List.forall_mem_cons.mp levels
    refine ⟨List.forall_mem_cons.mpr ⟨⟨?_, fun c absent => ?_⟩, rest⟩,
      fun writing => nomatch writing⟩
    · exact keeps.settings.trans first.same
    · exact (keeps.conditions c).trans (first.unmet c fun member => absent (grows member))
  | opens c keeps absent clause =>
    obtain ⟨first, rest⟩ := List.forall_mem_cons.mp levels
    refine ⟨List.forall_mem_cons.mpr ⟨⟨?_, fun c absent => ?_⟩, rest⟩, fun _ l found => ?_⟩
    · exact keeps.settings.trans first.same
    · exact (keeps.conditions c).trans
        (first.unmet c fun member => absent (List.mem_cons_of_mem _ member))
    · cases found
      rw [clause]
      exact List.mem_cons_self ..
  | conditions writes =>
    have met := writing rfl _ rfl
    obtain ⟨first, rest⟩ := List.forall_mem_cons.mp levels
    refine ⟨List.forall_mem_cons.mpr ⟨⟨?_, fun c absent => ?_⟩, rest⟩, fun _ l found => ?_⟩
    · exact writes.settings.trans first.same
    · refine (writes.others c ?_).trans (first.unmet c absent)
      rintro rfl
      exact absent met
    · cases found
      rw [writes.clause]
      exact met
  | beginsRight =>
    obtain ⟨first, rest⟩ := List.forall_mem_cons.mp levels
    refine ⟨List.forall_mem_cons.mpr ⟨?_, levels⟩, fun writing => nomatch writing⟩
    rw [first.same]
    exact Level.fresh_empty settings
  | endsRight keeps =>
    exact ⟨(List.forall_mem_cons.mp levels).2, fun writing => nomatch writing⟩
  | keys => exact ⟨levels, fun writing => nomatch writing⟩
  | joins built joined =>
    obtain ⟨first, rest⟩ := List.forall_mem_cons.mp levels
    refine ⟨List.forall_mem_cons.mpr ⟨⟨?_, fun c absent => ?_⟩, rest⟩,
      fun writing => nomatch writing⟩
    · exact joined.settings.trans first.same
    · exact (joined.conditions c).trans (first.unmet c absent)

namespace Standing

/-- The drafts of all queries that are being made. -/
def drafts (s : Standing) : List Draft :=
  s.right.toList ++ s.levels.map Level.draft

/-- The conditions of a clause are kept in the query around which there are `depth` others: while
that one is read, when it is finished, and when it is part of another one. -/
inductive Keeps (c : ConditionClause) (t : ConditionDraft) (depth : Nat) : Standing → Prop
  | reading (inside : List Level) {outside : List Level} {l : Level} {right : Option Draft}
      {region : Region} :
      outside.length = depth → c.clause ∈ l.clauses → l.draft.conditionsOf c = t →
      (region = .conditions → inside = [] → l.draft.clause ≠ c) →
      Keeps c t depth ⟨inside ++ l :: outside, right, region⟩
  | finished {levels : List Level} {d : Draft} :
      0 < depth → d.conditionsOf c = t → Keeps c t depth ⟨levels, some d, .keys⟩
  | joined {s : Standing} {d : Draft} {j : Join} {part : Query} :
      0 < depth → d ∈ s.drafts → j ∈ d.joins → part.PartOf j.right →
      t.tree = .ok (part.conditions c) → Keeps c t depth s

end Standing

/-- A draft goes on with all its joins where only the innermost one has changed. -/
theorem exists_joins_of_cons {d d₁ d₂ : Draft} {rest : List Draft} (grows : d₁.joins ⊆ d₂.joins)
    (member : d ∈ d₁ :: rest) : ∃ d' ∈ d₂ :: rest, d.joins ⊆ d'.joins := by
  rcases List.mem_cons.mp member with rfl | later
  · exact ⟨d₂, List.mem_cons_self .., grows⟩
  · exact ⟨d, List.mem_cons_of_mem _ later, List.Subset.refl _⟩

/-- A draft goes on with all its joins or is joined itself. -/
theorem Shift.exists_draft {s s' : Standing} (shift : Shift s s') {d : Draft}
    (member : d ∈ s.drafts) :
    (∃ d' ∈ s'.drafts, d.joins ⊆ d'.joins) ∨
      ∃ q, d.build = .ok q ∧ ∃ d' ∈ s'.drafts, ∃ terms, ⟨q, terms⟩ ∈ d'.joins := by
  cases shift with
  | goesOn _ keeps => exact .inl (exists_joins_of_cons keeps.subset member)
  | opens c keeps => exact .inl (exists_joins_of_cons keeps.subset member)
  | conditions writes => exact .inl (exists_joins_of_cons writes.subset member)
  | endsRight keeps => exact .inl (exists_joins_of_cons keeps.subset member)
  | beginsRight => exact .inl ⟨d, List.mem_cons_of_mem _ member, List.Subset.refl _⟩
  | keys => exact .inl ⟨d, member, List.Subset.refl _⟩
  | @joins l right d' q rest built joined =>
    rcases List.mem_cons.mp member with rfl | later
    · exact .inr ⟨q, built, d', List.mem_cons_self .., joined.exists_mem⟩
    · exact .inl (exists_joins_of_cons joined.subset later)

section

variable {c : ConditionClause} {t : ConditionDraft} {depth : Nat} {s s' : Standing}

/-- While its query is read, a clause that has been met is not written again. -/
theorem Shift.keeps_reading {inside outside : List Level} {l : Level} {right : Option Draft}
    {region : Region} (shift : Shift ⟨inside ++ l :: outside, right, region⟩ s')
    (bound : outside.length = depth) (met : c.clause ∈ l.clauses)
    (same : l.draft.conditionsOf c = t)
    (apart : region = .conditions → inside = [] → l.draft.clause ≠ c) :
    s'.Keeps c t depth := by
  -- A shift only reaches the innermost queries, so it matters whether the query is one of them.
  cases inside with
  | nil =>
    rw [List.nil_append] at shift
    cases shift with
    | goesOn _ keeps grows known =>
      refine .reading [] bound (grows met) ?_ fun writing => nomatch writing
      exact (keeps.conditions c).trans same
    | opens b keeps fresh clause =>
      refine .reading [] bound (List.mem_cons_of_mem _ met) ?_ fun _ _ => ?_
      · exact (keeps.conditions c).trans same
      · rw [clause]
        rintro rfl
        exact fresh met
    | conditions writes =>
      have other := apart rfl rfl
      refine .reading [] bound met ?_ fun _ _ => ?_
      · exact (writes.others c other.symm).trans same
      · rw [writes.clause]
        exact other
    | beginsRight =>
      exact .reading [_] bound met same fun writing => nomatch writing
    | endsRight keeps =>
      refine .finished ?_ ((keeps.conditions c).trans same)
      rw [← bound]
      exact Nat.succ_pos _
    | keys => exact .reading [] bound met same fun writing => nomatch writing
    | joins built joined =>
      refine .reading [] bound met ?_ fun writing => nomatch writing
      exact (joined.conditions c).trans same
  | cons first inside =>
    rw [List.cons_append] at shift
    generalize tail : inside ++ l :: outside = levels at shift
    cases shift with
    | endsRight =>
      rw [← tail]
      exact .reading inside bound met same nofun
    | keys =>
      rw [← tail]
      exact .reading (first :: inside) bound met same nofun
    | beginsRight =>
      rw [← tail]
      exact .reading (_ :: _ :: inside) bound met same nofun
    | goesOn | opens | conditions | joins =>
      rw [← tail]
      exact .reading (_ :: inside) bound met same nofun

theorem Shift.keeps (shift : Shift s s') (keeps : s.Keeps c t depth) : s'.Keeps c t depth := by
  cases keeps with
  | reading inside bound met same apart => exact shift.keeps_reading bound met same apart
  | finished positive same =>
    cases shift with
    | keys => exact .finished positive same
    | @joins _ _ _ q _ built joined =>
      obtain ⟨terms, member⟩ := joined.exists_mem
      refine .joined positive (List.mem_cons_self ..) member (.self _) ?_
      rw [← same]
      exact (Draft.build_ok built).1 c
  | joined positive member join part same =>
    rcases shift.exists_draft member with ⟨d', later, grows⟩ | ⟨q, built, d', later, terms, joined⟩
    · exact .joined positive later (grows join) part same
    · refine .joined positive later joined (.right ?_ part) same
      rw [(Draft.build_ok built).2]
      exact join

end

/-- What is kept to the end of a text is in the query that the text asks for. -/
theorem exists_part {c : ConditionClause} {t : ConditionDraft} {depth : Nat} {l : Level}
    {region : Region} {d : Draft} {q : Query}
    (keeps : Standing.Keeps c t depth ⟨[l], none, region⟩) (later : l.draft.Keeps d)
    (built : d.build = .ok q) :
    ∃ part : Query, part.PartOf q ∧ (depth = 0 → part = q) ∧
      t.tree = .ok (part.conditions c) := by
  obtain ⟨trees, joins⟩ := Draft.build_ok built
  generalize whole : Standing.mk [l] none region = s at keeps
  cases keeps with
  | @reading inside outside m _ _ bound met same =>
    obtain ⟨rfl, rfl, rfl⟩ : inside = [] ∧ m = l ∧ outside = [] := by
      cases inside with
      | nil =>
        cases whole
        exact ⟨rfl, rfl, rfl⟩
      | cons first rest => simp at whole
    refine ⟨q, .self q, fun _ => rfl, ?_⟩
    rw [← same, ← later.conditions]
    exact trees c
  | finished => cases whole
  | @joined _ d' j part positive member join inside same =>
    subst whole
    rw [List.mem_singleton.mp member] at join
    refine ⟨part, .right ?_ inside, fun atTop => absurd atTop (Nat.ne_of_gt positive), same⟩
    rw [joins, later.joins]
    exact join

namespace Reader

section

variable {r r' : Reader} {s : Standing} {ls : List Lexeme}

/-- What every shift keeps, reading keeps. -/
theorem standsIn_readAll {P : Standing → Prop} (kept : ∀ {s s'}, Shift s s' → P s → P s')
    (stands : r.StandsIn s) (holds : P s) (reads : r.readAll ls = some r') :
    ∃ s', r'.StandsIn s' ∧ P s' := by
  induction ls generalizing r s with
  | nil =>
    cases reads
    exact ⟨s, stands, holds⟩
  | cons l rest ih =>
    obtain ⟨next, read, reads⟩ := readAll_cons reads
    obtain ⟨s', shift, stands⟩ := exists_shift stands read
    exact ih stands (kept shift holds) reads

end

end Reader

theorem Place.around_of_atEnd {p : Place} {stop : Nat} (ends : p.atEnd stop = none) :
    p.around = [] := by
  unfold atEnd at ends
  split at ends
  · assumption
  · cases ends

/-- A text only ends outside of all parentheses, with plain steps at most. -/
theorem Place.finish_ok {p : Place} {stop : Nat} {steps : List PlacedStep}
    (ends : p.finish stop = (steps, none)) :
    p.awaiting.region ≠ .keys ∧ p.around = [] ∧ ∀ s ∈ steps, s.step.isPlain := by
  have finishes := p.finishes_finish stop
  rw [ends] at finishes
  generalize outcome : (steps, (none : Option QueryError)) = last at finishes
  cases finishes with
  | afterOrderKey found =>
    obtain ⟨rfl, stops⟩ := Prod.mk.inj outcome
    refine ⟨by rw [found]; nofun, around_of_atEnd stops.symm, fun s member => ?_⟩
    rw [List.mem_singleton.mp member]
    rfl
  | notAlone | early => cases outcome
  | clause found | afterItem found | afterItemAlias found | pastSource found
  | afterGroupKey found | afterDirection found | afterCondition found =>
    obtain ⟨rfl, stops⟩ := Prod.mk.inj outcome
    exact ⟨by rw [found]; nofun, around_of_atEnd stops.symm, fun s member => nomatch member⟩

theorem Reader.exists_last {r : Reader} {s : Standing} {stop : Nat} {n : NestedDraft}
    (stands : r.StandsIn s) (ends : r.finish stop = some n) :
    ∃ l region, s = ⟨[l], none, region⟩ ∧ l.draft.Keeps n.outermost := by
  unfold finish at ends
  split at ends
  · rename_i steps stops
    split at ends
    · rename_i m taken
      cases ends
      obtain ⟨outside, alone, plain⟩ := Place.finish_ok stops
      obtain ⟨rest, rfl, clauses, drafts⟩ := stands.exists_outside outside
      obtain ⟨keeps, same⟩ := NestedDraft.keeps_takeAll plain taken
      rw [alone] at clauses
      cases List.map_eq_nil_iff.mp clauses
      refine ⟨_, _, rfl, ?_⟩
      rw [NestedDraft.outermost, same, ← drafts]
      exact keeps
    · cases ends
  · cases ends

end Statement

end RecordQuery
