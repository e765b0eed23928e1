import RecordQuery.Proofs.Canonical.Execution
import RecordQuery.Proofs.Canonical.Origin

namespace RecordQuery.Query

open Token (IsPath IsWord)

/-- A query without a locator, without HAVING and without joins is plain if its fields and its
conditions are. -/
theorem isPlain_of_fields {q : Query} (fields : ∀ f ∈ q.fields, f.IsPlain)
    (filter : ∀ p ∈ Condition.testsOf q.filter.children, p.IsPlain)
    (bare : q.locator.isNone && q.having.isEmpty && q.joins.isEmpty) : q.IsPlain := by
  simp only [Bool.and_eq_true] at bare
  obtain ⟨⟨locator, having⟩, joins⟩ := bare
  have noLocator := Option.isNone_iff_eq_none.mp locator
  have noHaving : q.having.children = [] := List.isEmpty_iff.mp having
  have noJoins := List.isEmpty_iff.mp joins
  refine .mk ⟨fields, ?_, filter, ?_⟩ ?_ ?_
  · rw [noLocator]
    exact nofun
  · rw [noHaving]
    exact List.forall_mem_nil _
  · rw [noJoins]
    exact nofun
  · rw [noJoins]
    exact nofun

/-- A text with an alias, a condition and a count stands for a plain query. -/
theorem exists_isPlain : ∃ q, ofText .default "SELECT a AS b WHERE c = 1 LIMIT 2" = .ok q ∧
    q.IsPlain ∧ q.selects = true := by
  have parts : ((ofText .default "SELECT a AS b WHERE c = 1 LIMIT 2").toOption.map fun q =>
      (q.fields.map fun f => (f.name, f.path?.isSome),
        (Condition.testsOf q.filter.children).map fun p => p.operand.number?,
        q.locator.isNone && q.having.isEmpty && q.joins.isEmpty, q.selects)) =
      some ([("b", true)], [some (.int 1)], true, true) := by
    decide +kernel
  generalize "SELECT a AS b WHERE c = 1 LIMIT 2" = text at parts ⊢
  obtain ⟨q, found, parts⟩ := Option.map_eq_some_iff.mp parts
  simp only [Prod.mk.injEq] at parts
  obtain ⟨fields, operands, bare, selecting⟩ := parts
  refine ⟨q, toOption_eq_some.mp found,
    isPlain_of_fields (fun f member => ?_) (fun p member => ?_) bare, selecting⟩
  · have own := List.mem_map_of_mem (f := fun f => (f.name, f.path?.isSome)) member
    rw [fields, List.mem_singleton, Prod.mk.injEq] at own
    obtain ⟨name, isPath⟩ := own
    have path : IsPath ('b' :: ([] ++ ([] ++ []))) :=
      .bare rfl (List.forall_mem_nil _) (.inl rfl) .done
    have word : IsWord "b".toList := ⟨path, by decide +kernel⟩
    refine ⟨?_, fun _ => by rwa [name]⟩
    unfold SelectedField.path? at isPath
    cases same : f.expression with
    | path p => exact trivial
    | call c => simp [same] at isPath
  · have own := List.mem_map_of_mem (f := fun p => p.operand.number?) member
    rw [operands, List.mem_singleton] at own
    cases same : p.operand with
    | int n | text s =>
      rw [Predicate.IsPlain, same]
      exact List.forall_mem_singleton.mpr trivial
    | _ => simp [same, Value.number?] at own

/-- The canonical text of a plain query that is accepted is accepted too, and it is the canonical
text of what is read back from it. -/
theorem exists_ofText_display {text : String} {q : Query} (accepted : ofText .default text = .ok q)
    (plain : q.IsPlain) :
    ∃ again, ofText .default q.display = .ok again ∧ again.display = q.display :=
  ⟨q.reread, ofText_display (isWritten_of_ofText accepted plain),
    congrArg String.ofList q.displayChars_reread⟩

theorem exists_ofText_display_alias : ∃ q again,
    ofText .default "SELECT a AS b WHERE c = 1 LIMIT 2" = .ok q ∧
      ofText .default q.display = .ok again ∧ again.display = q.display := by
  obtain ⟨q, accepted, plain, -⟩ := exists_isPlain
  obtain ⟨again, reread, same⟩ := exists_ofText_display accepted plain
  exact ⟨q, again, accepted, reread, same⟩

/-- An alias with a blank in it is written in quotes and shown without them. -/
theorem not_ofText_display : ¬ ∀ (text : String) (q : Query), ofText .default text = .ok q →
    ∃ again, ofText .default q.display = .ok again ∧ again.display = q.display := by
  intro rereads
  have accepted : (ofText .default "SELECT a AS 'b c'").toOption.isSome := by decide +kernel
  have refused : ((ofText .default "SELECT a AS 'b c'").bind fun q =>
      ofText .default q.display).toOption.isSome = false := by
    decide +kernel
  generalize "SELECT a AS 'b c'" = text at accepted refused
  cases found : ofText .default text with
  | error e =>
    rw [found] at accepted
    cases accepted
  | ok q =>
    obtain ⟨again, same, -⟩ := rereads text q found
    rw [found] at refused
    change (ofText .default q.display).toOption.isSome = false at refused
    rw [same] at refused
    cases refused

/-- The canonical text of a plain query that selects something asks for the same rows. -/
theorem execute_display {text : String} {q again : Query} (accepted : ofText .default text = .ok q)
    (reread : ofText .default q.display = .ok again) (plain : q.IsPlain)
    (selecting : q.selects = true) (ambient : Ambient) (m : MemorySource) :
    again.execute ambient m.toSource = q.execute ambient m.toSource := by
  have same := ofText_display (isWritten_of_ofText accepted plain)
  obtain rfl : q.reread = again := Except.ok.inj (same.symm.trans reread)
  exact execute_reread selecting ambient m.toSource

theorem execute_display_alias : ∃ q again,
    ofText .default "SELECT a AS b WHERE c = 1 LIMIT 2" = .ok q ∧
      ofText .default q.display = .ok again ∧ ∀ (ambient : Ambient) (m : MemorySource),
        again.execute ambient m.toSource = q.execute ambient m.toSource := by
  obtain ⟨q, accepted, plain, selecting⟩ := exists_isPlain
  have reread := ofText_display (isWritten_of_ofText accepted plain)
  exact ⟨q, q.reread, accepted, reread, execute_display accepted reread plain selecting⟩

/-- A query without SELECT gives rows without fields, and its canonical text asks for all fields. -/
theorem not_execute_display : ¬ ∀ (text : String) (q again : Query) (ambient : Ambient)
    (m : MemorySource), ofText .default text = .ok q → ofText .default q.display = .ok again →
      again.execute ambient m.toSource = q.execute ambient m.toSource := by
  intro same
  let ambient : Ambient := ⟨⟨0, 0, 0⟩, ""⟩
  let m : MemorySource := ⟨.record [("x", .int 1)], .empty⟩
  let widths (q : Query) : Option (List (Option Nat)) :=
    (q.execute ambient m.toSource).toOption.map fun results =>
      results.items.map fun item => item.toOption.map fun r => r.fields.length
  have first : ((ofText .default "FROM *").toOption.bind widths) = some [some 0] := by
    decide +kernel
  have second : (((ofText .default "FROM *").bind fun q =>
      ofText .default q.display).toOption.bind widths) = some [some 1] := by
    decide +kernel
  generalize "FROM *" = text at first second
  cases found : ofText .default text with
  | error e =>
    rw [found] at first
    cases first
  | ok q =>
    rw [found] at first second
    change widths q = some [some 0] at first
    change ((ofText .default q.display).toOption.bind widths) = some [some 1] at second
    cases reread : ofText .default q.display with
    | error e =>
      rw [reread] at second
      cases second
    | ok again =>
      rw [reread] at second
      change widths again = some [some 1] at second
      have equal : widths again = widths q := by
        simp only [widths, same text q again ambient m found reread]
      rw [equal, first] at second
      cases second

end RecordQuery.Query
