import RecordQuery.Proofs.Canonical.Condition
import RecordQuery.Proofs.Condition.Acceptance

namespace RecordQuery

open Lexeme (byteLength)
open Statement (Reader TestHead literal?)
open Token (Stops)

/-- The values that are one word, one integer or one text, and so are written exactly. -/
def Value.IsExact : Value → Prop
  | .null | .bool _ | .int _ | .text _ => True
  | .float _ | .array _ | .record _ => False

theorem Value.IsExact.isLiteral {v : Value} (exact : v.IsExact) : v.IsLiteral := by
  cases v with
  | null | bool | int | text => trivial
  | float | array | record => exact exact.elim

/-- The notation of a literal value is one lexeme that stands for the value, wherever a text stops
behind it. -/
theorem Value.exists_lexeme {v : Value} (isLiteral : v.IsLiteral) :
    ∃ t, literal? t = some v ∧ ∀ behind, Stops behind → ∀ start,
      Lexeme.ofChars start (v.displayChars ++ behind) =
        ⟨start, start + byteLength v.displayChars, t, behind⟩ ::
          Lexeme.ofChars (start + byteLength v.displayChars) behind := by
  obtain ⟨t, piece, literal, -⟩ := exists_literal isLiteral
  exact ⟨t, literal, fun behind stops start => Lexeme.ofChars_piece piece stops start⟩

/-- A list that is the operand of a predicate is read as the list of its items. -/
theorem Predicate.readAll_list {p : Predicate} {items : List Value}
    (takes : p.operator.takesList = true) (operand : p.operand = .array items)
    (all : ∀ v ∈ items, v.IsLiteral) (parsed : FieldPath.forQuery p.field.text = .ok p.field)
    {behind : List Char} (stops : Stops behind) (start : Nat) :
    ∃ ls, Lexeme.ofChars start (p.operandChars ++ behind) =
        ls ++ Lexeme.ofChars (start + byteLength p.operandChars) behind ∧
      ∀ (r : Reader) (head : TestHead), r.place.awaiting = .list head p.field.text p.operator →
        r.draft.inner.pending = none →
          r.readAll ls = some (r.add head.connective (.test p) head.parens) := by
  obtain ⟨ts, spells, spelled⟩ := Value.exists_spells_list takes all
  rw [← operandChars_of_list takes operand] at spells
  obtain ⟨ls, tokens, cut⟩ := spells behind stops start
  refine ⟨ls, cut, fun r head awaiting settled => ?_⟩
  have behindOperator := Statement.Place.behindOperator_of_list takes head p.field.text
  have awaits : Statement.AwaitsOperand head p.field.text p.operator r.place.awaiting :=
    .inl (awaiting.trans behindOperator.symm)
  have read := Reader.readAll_of_operand spelled tokens awaits parsed settled
  rw [← operand] at read
  exact read

/-- A value that is written exactly is one lexeme, from which the same value is read, and lists of
such values are read back item by item. -/
theorem Value.notation_roundtrip :
    (∀ v : Value, v.IsExact → ∃ t, literal? t = some v ∧ ∀ behind, Stops behind → ∀ start,
      Lexeme.ofChars start (v.displayChars ++ behind) =
        ⟨start, start + byteLength v.displayChars, t, behind⟩ ::
          Lexeme.ofChars (start + byteLength v.displayChars) behind) ∧
      ∀ (p : Predicate) (items : List Value), p.operator.takesList = true →
        p.operand = .array items → (∀ v ∈ items, v.IsExact) →
          FieldPath.forQuery p.field.text = .ok p.field → ∀ behind, Stops behind → ∀ start, ∃ ls,
            Lexeme.ofChars start (p.operandChars ++ behind) =
                ls ++ Lexeme.ofChars (start + byteLength p.operandChars) behind ∧
              ∀ (r : Reader) (head : TestHead),
                r.place.awaiting = .list head p.field.text p.operator →
                  r.draft.inner.pending = none →
                    r.readAll ls = some (r.add head.connective (.test p) head.parens) := by
  refine ⟨fun v exact => v.exists_lexeme exact.isLiteral, ?_⟩
  intro p items takes operand exact parsed behind stops start
  exact p.readAll_list takes operand (fun v member => (exact v member).isLiteral) parsed stops start

theorem Value.notation_roundtrip_quotes :
    (∃ t, literal? t = some (.text "'\"7\"'\\") ∧
      Lexeme.ofChars 2 ((Value.text "'\"7\"'\\").displayChars ++ [',', ' ', '7']) =
        [⟨2, 13, t, [',', ' ', '7']⟩, ⟨13, 14, .sign .comma, [' ', '7']⟩,
          ⟨15, 16, .number "7", []⟩]) ∧
      ∃ r : Reader, r.readAll (Lexeme.ofChars 0 "(null, -3, \"7\")".toList) =
        some (r.add .and
          (.test ⟨⟨"a", [.key "a"]⟩, .inList, .array [.null, .int (-3), .text "7"]⟩) []) := by
  obtain ⟨values, lists⟩ := notation_roundtrip
  constructor
  · obtain ⟨t, literal, cut⟩ := values (.text "'\"7\"'\\") trivial
    have length : byteLength (Value.text "'\"7\"'\\").displayChars = 11 := by decide +kernel
    have later : Lexeme.ofChars 13 [',', ' ', '7'] =
        [⟨13, 14, .sign .comma, [' ', '7']⟩, ⟨15, 16, .number "7", []⟩] := by decide +kernel
    refine ⟨t, literal, (cut _ (Stops.comma _) 2).trans ?_⟩
    rw [length, later]
  · have exact : ∀ v ∈ [Value.null, .int (-3), .text "7"], v.IsExact := by simp [IsExact]
    have parsed : FieldPath.forQuery "a" = .ok ⟨"a", [.key "a"]⟩ := by decide +kernel
    obtain ⟨ls, cut, read⟩ :=
      lists ⟨⟨"a", [.key "a"]⟩, .inList, _⟩ _ rfl rfl exact parsed [] Stops.nil 0
    have done := read ⟨⟨[], [], .list ⟨.and, 0, []⟩ "a" .inList⟩, .ofDraft (.empty .default)⟩
      ⟨.and, 0, []⟩ rfl rfl
    have spelled : Predicate.operandChars ⟨⟨"a", [.key "a"]⟩, .inList,
        .array [.null, .int (-3), .text "7"]⟩ ++ [] = "(null, -3, \"7\")".toList := by
      decide +kernel
    rw [spelled] at cut
    rw [Lexeme.ofChars_nil, List.append_nil] at cut
    rw [cut]
    exact ⟨_, done⟩

end RecordQuery
