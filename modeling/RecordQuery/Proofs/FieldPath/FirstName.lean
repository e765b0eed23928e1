import RecordQuery.Proofs.FieldPath.Grammar

namespace RecordQuery.FieldPath

open Token (IsQuotedName)

/-- Whether the first name of a path stands between backticks. -/
def isTicked (path : FieldPath) : Bool :=
  path.text.toList.head? == some '\x60'

/-- What may stand behind a name, with the segments that it adds. -/
inductive Behind : List Char → List Segment → Prop
  | nothing : Behind [] []
  | mark : Behind ['[', ']'] [.each]
  | point {more : List Char} {later : List Segment} : Denotes false more later →
      Behind ('.' :: more) later
  | markPoint {more : List Char} {later : List Segment} : Denotes false more later →
      Behind ('[' :: ']' :: '.' :: more) (.each :: later)

section

variable {first : Bool} {cs : List Char} {name : String} {rest : List Segment}

/-- Segments that begin with a key are read from a name and what stands behind it. -/
theorem Denotes.exists_name (denotes : Denotes first cs (.key name :: rest)) :
    ∃ text behind, IsName text name ∧ cs = text ++ behind ∧ Behind behind rest := by
  generalize all : Segment.key name :: rest = segments at denotes
  cases denotes with
  | last component =>
    cases component with
    | name isName =>
      cases all
      exact ⟨_, [], isName, (List.append_nil _).symm, .nothing⟩
    | marked isName =>
      cases all
      exact ⟨_, _, isName, rfl, .mark⟩
    | mark => cases all
  | more component later =>
    cases component with
    | name isName =>
      cases all
      exact ⟨_, _, isName, rfl, .point later⟩
    | marked isName =>
      cases all
      exact ⟨_, _, isName, List.append_assoc .., .markPoint later⟩
    | mark => cases all

/-- A path that begins with a key may stand anywhere in another path. -/
theorem Denotes.of_key (denotes : Denotes first cs (.key name :: rest)) (other : Bool) :
    Denotes other cs (.key name :: rest) := by
  generalize all : Segment.key name :: rest = segments at denotes
  cases denotes with
  | last component =>
    cases component with
    | name isName => exact .last (.name isName)
    | marked isName => exact .last (.marked isName)
    | mark => cases all
  | more component later =>
    cases component with
    | name isName => exact .more (.name isName) later
    | marked isName => exact .more (.marked isName) later
    | mark => cases all

/-- Only a mark of iteration is no key, so a path with another character in front begins with
one. -/
theorem Denotes.exists_key {c : Char} {segments : List Segment} (denotes : Denotes first (c :: cs) segments)
    (noMark : c ≠ '[') : ∃ name rest, segments = .key name :: rest := by
  generalize all : c :: cs = text at denotes
  cases denotes with
  | last component =>
    cases component with
    | name | marked => exact ⟨_, _, rfl⟩
    | mark => exact absurd (List.cons.inj all).1 noMark
  | more component later =>
    cases component with
    | name | marked => exact ⟨_, _, rfl⟩
    | mark => exact absurd (List.cons.inj all).1 noMark

theorem IsName.cases_text {text : List Char} (isName : IsName text name) :
    IsQuotedName name.toList ∧ text = '\x60' :: (name.toList ++ ['\x60']) ∨
      (∀ d ∈ name.toList, endsName d = false) ∧ text = name.toList ∧
        ∀ behind, (text ++ behind).head? ≠ some '\x60' := by
  cases isName with
  | quoted quoted =>
    rw [String.toList_ofList]
    exact .inl ⟨quoted, rfl⟩
  | bare tick bare =>
    rw [String.toList_ofList]
    refine .inr ⟨bare, rfl, fun behind same => ?_⟩
    rw [Option.some.inj same] at tick
    cases tick

end

end RecordQuery.FieldPath
