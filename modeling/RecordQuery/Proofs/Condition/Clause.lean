import RecordQuery.Proofs.Condition.Recognition
import RecordQuery.Proofs.Statement.Kept

namespace RecordQuery.Statement

namespace Reader

section

variable {r r' : Reader} {l : Lexeme} {rest : List Lexeme} {n : NestedDraft}

/-- Behind a condition that does not go on, the next clause is awaited. -/
theorem EndsIn.await (awaiting : r.place.awaiting = .afterCondition [])
    (stops : ∀ l ∈ rest.head?, connective? l.token = none) (ends : r.EndsIn rest n) :
    (r.await .clause).EndsIn rest n := by
  obtain ⟨last, stop, reads, finishes⟩ := ends
  cases rest with
  | nil =>
    cases reads
    refine ⟨_, stop, rfl, ?_⟩
    rw [← finishes]
    simp only [finish, Place.finish, awaiting, Reader.await]
    rfl
  | cons l rest =>
    refine ⟨last, stop, ?_, finishes⟩
    have same : (r.place.await .clause).meet l = r.place.meet l := by
      have noConnective := stops l rfl
      rw [Place.meet_afterCondition awaiting]
      simp only [Place.afterCondition, noConnective]
      exact r.place.atClause_await .clause l
    rw [← reads, readAll, readAll, read, read, Reader.await, same]
    rfl

/-- A clause of conditions begins with no conditions in it. -/
theorem read_clause {c : ConditionClause}
    (opens : .clause c ∈ (r.place.meet l).steps.map PlacedStep.step)
    (reads : r.read l = some r') :
    r.place.awaiting.region ≠ .keys ∧ c.clause ∉ r.place.clauses ∧
      r'.place = ⟨c.clause :: r.place.clauses, r.place.around, .condition .and []⟩ ∧
      r.draft.inner.Keeps r'.draft.inner ∧ r'.draft.inner.clause = c ∧
      r'.draft.around = r.draft.around := by
  obtain ⟨goes, takes⟩ := move_some reads
  have leads := Place.leads_meet goes
  generalize (r.place.meet l).steps = steps at leads takes opens
  obtain ⟨s, member, same⟩ := List.mem_map.mp opens
  generalize placed : r'.place = next at leads ⊢
  cases leads with
  | goesOn _ _ plain =>
    have plain := plain s member
    rw [same] at plain
    cases plain
  | endsRight _ plain =>
    have plain := plain s member
    rw [same] at plain
    cases plain
  | conditions _ _ condition =>
    have condition := condition s member
    rw [same] at condition
    cases condition
  | beginsRight | joins =>
    rw [List.mem_singleton.mp member] at same
    cases same
  | keys => cases member
  | @opens steps position d outside plain fresh =>
    obtain ⟨keeps, clause, around⟩ := NestedDraft.opens_takeAll plain takes
    obtain rfl : d = c := by
      rcases List.mem_append.mp member with before | found
      · have plain := plain s before
        rw [same] at plain
        cases plain
      · rw [List.mem_singleton.mp found] at same
        exact Step.clause.inj same
    exact ⟨outside, fresh, rfl, keeps, clause, around⟩

end

end Reader

/-- Lexemes begin with a chain that does not go on behind its last term. -/
def BeginsWith (rest : List Lexeme) (chain : List (Connective × Condition)) : Prop :=
  ∃ written behind, rest = written ++ behind ∧ SpellsChain (written.map Lexeme.token) chain ∧
    ∀ l ∈ behind.head?, connective? l.token = none

namespace Reader

/-- The conditions read from a chain evaluate to what the chain means. -/
theorem evaluate_addAll_empty {grouping : Bool} {chain : List (Connective × Condition)}
    {tree : ConditionTree}
    (built : ((ConditionDraft.empty grouping).addAll (Condition.builtAll grouping chain)).tree =
      .ok tree) (record : Record) (mode : Strictness) :
    tree.evaluate record mode = (Condition.group chain).meaning grouping record mode := by
  cases built
  exact Condition.evaluate_built grouping .and (.group chain) record mode

/-- The conditions of a clause are kept from where their last term has been read. -/
theorem exists_part_of_chain {r : Reader} {s : Standing} {rest : List Lexeme} {n : NestedDraft}
    {q : Query} {c : ConditionClause} {chain : List (Connective × Condition)}
    (stands : r.StandsIn s) (met : c.clause ∈ r.place.clauses)
    (writing : r.draft.inner.clause = c) (awaiting : r.place.awaiting = .condition .and [])
    (ends : r.EndsIn rest n) (built : n.outermost.build = .ok q)
    (begins : BeginsWith rest chain) :
    ∃ part : Query, part.PartOf q ∧ (r.place.around = [] → part = q) ∧
      (r.draft.inner.conditions.addAll (Condition.builtAll r.grouping chain)).tree =
        .ok (part.conditions c) := by
  obtain ⟨written, behind, rfl, spelled, stops⟩ := begins
  obtain ⟨next, reads, ends⟩ := ends.split
  cases readAll_chain spelled rfl awaiting reads
  -- Behind the chain only a clause or the end can stand, so reading goes on as if it had left the
  -- conditions there, and from then on they are kept.
  obtain ⟨last, stop, reads, finishes⟩ := ends.await rfl stops
  obtain ⟨levels, rfl, clauses, drafts⟩ := stands.exists_outside (by rw [awaiting]; nofun)
  generalize written : Condition.builtAll r.grouping chain = all at reads ⊢
  have later : StandsIn ((r.addAll all []).await .clause)
      ⟨⟨r.place.clauses, r.draft.inner.mapConditions fun d => d.addAll all⟩ :: levels, none,
        .clauses⟩ :=
    .outside rfl (by decide) clauses drafts
  have tree := r.draft.inner.conditions_mapConditions fun d => d.addAll all
  rw [Draft.conditions_eq, (r.draft.inner.writes_mapConditions _).clause, writing] at tree
  have keeps : Standing.Keeps c _ levels.length
      ⟨⟨r.place.clauses, r.draft.inner.mapConditions fun d => d.addAll all⟩ :: levels, none,
        .clauses⟩ :=
    .reading [] rfl met tree fun writing => nomatch writing
  obtain ⟨s, stands, keeps⟩ := standsIn_readAll Shift.keeps later keeps reads
  obtain ⟨l, region, rfl, same⟩ := exists_last stands finishes
  obtain ⟨part, inside, alone, found⟩ := exists_part keeps same built
  refine ⟨part, inside, fun topLevel => alone ?_, found⟩
  rw [topLevel] at clauses
  rw [List.map_eq_nil_iff.mp clauses, List.length_nil]

end Reader

open Reader

/-- In a statement that is not refused, what stands behind WHERE or HAVING is a chain of terms, and
the conditions of that clause evaluate to what the chain means. -/
theorem evaluate_clause {settings : QuerySettings} {text : String} {q : Query}
    {before rest : List Lexeme} {lead : Lexeme} {r : Reader} {c : ConditionClause}
    (accepted : Query.ofText settings text = .ok q)
    (lexemes : Lexeme.ofText text = before ++ lead :: rest)
    (reached : (Reader.start settings).readAll before = some r)
    (opens : .clause c ∈ (r.place.meet lead).steps.map PlacedStep.step) :
    (∃ chain, BeginsWith rest chain) ∧
      ∀ chain, BeginsWith rest chain →
        ∃ part : Query, part.PartOf q ∧ (r.place.around = [] → part = q) ∧
          ∀ record mode, (part.conditions c).evaluate record mode =
            (Condition.group chain).meaning settings.grouping record mode := by
  obtain ⟨n, ends, built⟩ := exists_of_ofText accepted
  rw [lexemes] at ends
  obtain ⟨_, same, ends⟩ := ends.split
  cases reached.symm.trans same
  obtain ⟨next, read, ends⟩ := ends.cons
  obtain ⟨s, stands, fresh⟩ := standsIn_readAll Shift.fresh (standsIn_start settings)
    (fresh_start settings) reached
  obtain ⟨outside, absent, placed, keeps, writing, around⟩ := read_clause opens read
  obtain ⟨levels, rfl, clauses, drafts⟩ := stands.exists_outside outside
  have unmet := (fresh.levels _ (List.mem_cons_self ..)).unmet c absent
  have empty : next.draft.inner.conditions = .empty settings.grouping := by
    rw [Draft.conditions_eq, writing, keeps.conditions]
    exact unmet
  have grouping : next.grouping = settings.grouping := congrArg ConditionDraft.grouping empty
  have awaiting : next.place.awaiting = .condition .and [] := by rw [placed]
  constructor
  · obtain ⟨ls, chain, behind, _, split, spelled, -, stops⟩ :=
      exists_chain awaiting ends
    exact ⟨chain, ls, behind, split.parts, spelled, stops⟩
  · intro chain begins
    obtain ⟨s, shift, stands⟩ := exists_shift stands read
    have met : c.clause ∈ next.place.clauses := by
      rw [placed]
      exact List.mem_cons_self ..
    obtain ⟨part, inside, alone, tree⟩ :=
      exists_part_of_chain stands met writing awaiting ends built begins
    rw [empty, grouping] at tree
    refine ⟨part, inside, fun topLevel => alone ?_, evaluate_addAll_empty tree⟩
    rw [placed]
    exact topLevel

/-- AND binds tighter than the OR in front of it. -/
theorem evaluate_clause_mixed :
    ∃ q lead rest, Query.ofText .default "WHERE a = 1 OR b = 2 AND c = 3" = .ok q ∧
      Lexeme.ofText "WHERE a = 1 OR b = 2 AND c = 3" = lead :: rest ∧
      .clause .filter ∈ (Place.start.meet lead).steps.map PlacedStep.step ∧
      (∃ chain, BeginsWith rest chain) ∧
      ∀ chain, BeginsWith rest chain → ∀ record mode,
        (q.conditions .filter).evaluate record mode =
          (Condition.group chain).meaning true record mode := by
  have reads : (Query.ofText .default "WHERE a = 1 OR b = 2 AND c = 3").toOption.isSome := by
    decide +kernel
  have first : (Lexeme.ofText "WHERE a = 1 OR b = 2 AND c = 3").head?.map Lexeme.token =
      some (.keyword .whereWord) := by
    decide +kernel
  generalize "WHERE a = 1 OR b = 2 AND c = 3" = text at reads first ⊢
  cases accepted : Query.ofText .default text with
  | error e =>
    rw [accepted] at reads
    cases reads
  | ok q =>
    cases lexemes : Lexeme.ofText text with
    | nil =>
      rw [lexemes] at first
      cases first
    | cons lead rest =>
      rw [lexemes] at first
      have word : lead.token = .keyword .whereWord := Option.some.inj first
      have opens : .clause .filter ∈ (Place.start.meet lead).steps.map PlacedStep.step := by
        change .clause .filter ∈ (Place.start.atClause lead).steps.map PlacedStep.step
        rw [Place.atClause, word]
        exact List.mem_singleton_self _
      obtain ⟨meaning, all⟩ := @evaluate_clause _ _ q [] rest lead (Reader.start .default) .filter
        accepted lexemes rfl opens
      refine ⟨q, lead, rest, rfl, rfl, opens, meaning, fun chain begins record mode => ?_⟩
      obtain ⟨part, -, alone, same⟩ := all chain begins
      rw [← alone rfl]
      exact same record mode

end RecordQuery.Statement
