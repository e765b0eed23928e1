import RecordQuery.Proofs.Canonical.Argument

namespace RecordQuery

/-- A call of a function that takes its arguments, with calls of that kind among them. -/
inductive Call.IsMade : Call → Prop
  | intro {c : Call} (made : make c.kind c.arguments = .ok c)
      (inner : ∀ kind arguments, .call kind arguments ∈ c.arguments → IsMade ⟨kind, arguments⟩) :
      IsMade c

/-- An argument that is computed from one row: at no depth is there an aggregate or a star in it. -/
inductive Argument.IsRowwise : Argument → Prop
  | field (path : FieldPath) : IsRowwise (.field path)
  | literal (v : Value) : IsRowwise (.literal v)
  | call {kind : FunctionKind} {arguments : List Argument} (single : kind.isAggregate = false)
      (inner : ∀ a ∈ arguments, IsRowwise a) : IsRowwise (.call kind arguments)

namespace Call

/-- Where stars stand in COUNT alone, a call of a function of one row has none. -/
theorem isRowwise_of_arguments {c : Call} (single : c.isAggregate = false)
    (each : ∀ a ∈ c.arguments, a.IsRowwise ∨ a = .star ∧ c.kind = .count) :
    c.toArgument.IsRowwise := by
  refine .call single fun a member => ?_
  rcases each a member with rowwise | ⟨-, count⟩
  · exact rowwise
  · rw [isAggregate, count] at single
    cases single

/-- The star stands in COUNT alone, and every other argument is computed from one row. -/
theorem IsMade.arguments {c : Call} (made : c.IsMade) :
    ∀ a ∈ c.arguments, a.IsRowwise ∨ a = .star ∧ c.kind = .count := by
  induction made with
  | intro made _ ih =>
    intro a member
    have allowed := (make_ok made).1 a member
    cases a with
    | field path => exact .inl (.field path)
    | literal v => exact .inl (.literal v)
    | star =>
      rw [argumentFault?] at allowed
      split at allowed
      · rename_i count
        exact .inr ⟨rfl, count⟩
      · cases allowed
    | call kind arguments =>
      rw [argumentFault?] at allowed
      split at allowed
      · cases allowed
      · rename_i grouped
        have single : isAggregate ⟨kind, arguments⟩ = false := Bool.eq_false_iff.mpr grouped
        exact .inl (isRowwise_of_arguments single (ih kind arguments member))

theorem IsMade.isRowwise {c : Call} (made : c.IsMade) (single : c.isAggregate = false) :
    c.toArgument.IsRowwise :=
  isRowwise_of_arguments single made.arguments

theorem isMade_of_make {kind : FunctionKind} {arguments : List Argument} {c : Call}
    (plain : ∀ a ∈ arguments, ∀ inner others, a ≠ .call inner others)
    (made : make kind arguments = .ok c) : c.IsMade := by
  obtain ⟨-, rfl⟩ := make_ok made
  exact .intro made fun inner others member => absurd rfl (plain _ member inner others)

end Call

theorem Argument.ofToken?_ne_call (t : Token) (kind : FunctionKind) (arguments : List Argument) :
    ofToken? t ≠ some (.ok (.call kind arguments)) := by
  intro read
  unfold ofToken? at read
  split at read
  · cases read
  · cases read
  · cases read
  · rename_i text
    split at read
    · obtain ⟨path, -, field⟩ := exists_of_map_ok (Option.some.inj read)
      cases field
    · cases read
  · cases read

/-- The calls that are read from a text have been made of arguments that their functions take, at
every depth. -/
theorem Argument.isMade_of_ofText {position : Nat} {function text : String} {kind : FunctionKind}
    {arguments : List Argument}
    (read : ofText position function text = .ok (.call kind arguments)) :
    Call.IsMade ⟨kind, arguments⟩ := by
  obtain ⟨l, single, ⟨name, texts, c, token, made, same⟩ | value⟩ := exists_of_ofText read
  · cases same
    obtain ⟨whole, each⟩ := Call.exists_of_ofTexts made
    have member : l ∈ Lexeme.ofText text := by
      rw [single]
      exact List.mem_singleton_self l
    refine .intro whole fun inner others among => ?_
    obtain ⟨argument, inside, again⟩ := each _ among
    have shorter := Lexeme.length_argument_lt member token inside
    exact isMade_of_ofText again
  · exact absurd value (ofToken?_ne_call l.token kind arguments)
termination_by text.toList.length

theorem Call.isMade_of_ofTexts {position : Nat} {name : String} {texts : List String} {c : Call}
    (read : ofTexts position name texts = .ok c) : c.IsMade := by
  obtain ⟨made, each⟩ := exists_of_ofTexts read
  refine .intro made fun inner others among => ?_
  obtain ⟨_, _, again⟩ := each _ among
  exact Argument.isMade_of_ofText again

end RecordQuery
