import RecordQuery.Proofs.Decimal.Layout
import RecordQuery.Proofs.Json.Value
import RecordQuery.Proofs.Number.Spelling
import RecordQuery.Proofs.Token.Piece
import RecordQuery.Statement.Reading

namespace RecordQuery

namespace Token

/-- Digits with a sign or without, and with a fraction behind a point or without. -/
inductive IsNumeral : List Char → Prop
  | mk (negative : Bool) {whole fraction : List Char} : whole ≠ [] →
      (∀ c ∈ whole, Text.isDigit c = true) → (∀ c ∈ fraction, Text.isDigit c = true) →
      IsNumeral (Double.signChars negative ++ numeral whole fraction)

section

variable {cs : List Char}

theorem IsNumeral.isPiece (written : IsNumeral cs) :
    IsPiece cs (.number (String.ofList cs)) := by
  obtain ⟨negative, nonempty, whole, fraction⟩ := written
  exact isPiece_numeral negative nonempty whole fraction

theorem IsNumeral.exists_spelling (written : IsNumeral cs) :
    ∃ k : Number.Spelling, k.chars = cs := by
  obtain ⟨negative, nonempty, whole, digits⟩ := written
  rename_i front fraction
  have natural := Decimal.isNatural_iff.mpr ⟨nonempty, whole⟩
  rcases eq_or_ne fraction [] with empty | pointed
  · refine ⟨⟨negative, front, .none, .none, natural, nofun⟩, ?_⟩
    simp [Number.Spelling.chars, Number.Spelling.bodyChars, Number.Spelling.mantissaChars, numeral,
      empty]
  · have behind := Decimal.isNatural_iff.mpr ⟨pointed, digits⟩
    refine ⟨⟨negative, front, .some fraction, .none, natural, by simpa using behind⟩, ?_⟩
    simp [Number.Spelling.chars, Number.Spelling.bodyChars, Number.Spelling.mantissaChars, numeral,
      pointed]

theorem IsNumeral.trimChars (written : IsNumeral cs) : Text.trimChars cs = cs := by
  obtain ⟨k, rfl⟩ := written.exists_spelling
  exact k.trimChars_chars

/-- A numeral stands for the number that it denotes. -/
theorem IsNumeral.ofUnquoted (written : IsNumeral cs) {n : Number}
    (number : Number.ofText? (String.ofList cs) = some n) :
    Literal.ofUnquoted (String.ofList cs) = .ofNumber n := by
  obtain ⟨k, rfl⟩ := written.exists_spelling
  rw [Number.ofText?_chars] at number
  rw [Number.ofUnquoted_chars, Option.some.inj number]

end

end Token

theorem Decimal.isNumeral_digitChars (negative : Bool) (n : Nat) :
    Token.IsNumeral (Double.signChars negative ++ digitChars n) := by
  have digits := List.all_eq_true.mp (all_digitChars n)
  have noFraction : ∀ c ∈ ([] : List Char), Text.isDigit c = true := nofun
  have written := Token.IsNumeral.mk negative (digitChars_ne_nil n) digits noFraction
  rwa [Token.numeral, if_pos rfl, List.append_nil] at written

theorem Decimal.isNumeral_integerChars (n : Int) : Token.IsNumeral (integerChars n) := by
  unfold integerChars
  split
  · exact isNumeral_digitChars true n.natAbs
  · exact isNumeral_digitChars false n.natAbs

theorem int64?_eq_some {m : Int} {n : Int64} : int64? m = some n ↔ n.toInt = m := by
  constructor
  · intro found
    rw [int64?] at found
    split at found
    · rename_i fits
      cases found
      exact Int64.toInt_ofInt_of_le fits.1 (Int.lt_of_le_of_lt fits.2 (by decide))
    · cases found
  · rintro rfl
    exact Json.int64?_toInt n

namespace Number

variable {negative : Bool} {digits fraction : List Char}

/-- Digits alone are read as the integer that they denote when it is in range, and as a double
otherwise. -/
theorem ofUnsigned?_digits (natural : Decimal.isNatural digits = true) :
    ofUnsigned? negative digits =
      match int64? (if negative then -(Decimal.valueOf digits : Int)
        else Decimal.valueOf digits) with
      | some i => some (.int i)
      | none => some (.float (Double.ofDigits negative digits [] 0)) := by
  have read := Spelling.ofUnsigned?_bodyChars ⟨negative, digits, none, none, natural, nofun⟩
  simp only [Spelling.bodyChars, Spelling.mantissaChars, Option.elim_none, List.append_nil] at read
  rw [read, Spelling.number]
  change some (match int64? (if negative then _ else _) with
    | some n => Number.int n
    | none => _) = _
  cases int64? (if negative then -(Decimal.valueOf digits : Int) else Decimal.valueOf digits) <;>
    rfl

theorem ofUnsigned?_natural {n : Int64} (natural : Decimal.isNatural digits = true)
    (denotes : n.toInt =
      if negative then -(Decimal.valueOf digits : Int) else Decimal.valueOf digits) :
    ofUnsigned? negative digits = some (.int n) := by
  rw [ofUnsigned?_digits natural, ← denotes, Json.int64?_toInt]

/-- Digits with a fraction behind a point are read as a double. -/
theorem ofUnsigned?_pointed (natural : Decimal.isNatural digits = true)
    (behind : Decimal.isNatural fraction = true) :
    ofUnsigned? negative (digits ++ '.' :: fraction) =
      some (.float (Double.ofDigits negative digits fraction 0)) := by
  have read := Spelling.ofUnsigned?_bodyChars
    ⟨negative, digits, some fraction, none, natural, by simpa using behind⟩
  simp only [Spelling.bodyChars, Spelling.mantissaChars, Option.elim_none, Option.elim_some,
    List.append_nil] at read
  rw [read]
  rfl

/-- The sign is taken off a numeral before it is read. -/
theorem ofText?_signed {body : List Char} (first : ∀ c ∈ body.head?, Text.isDigit c = true)
    (written : Token.IsNumeral (Double.signChars negative ++ body)) :
    ofText? (String.ofList (Double.signChars negative ++ body)) = ofUnsigned? negative body := by
  rw [ofText?, String.toList_ofList, ofChars?, written.trimChars]
  cases negative with
  | true => rfl
  | false =>
    rw [Double.signChars, if_neg Bool.false_ne_true, List.nil_append]
    split
    · have minus := first '-' rfl
      cases minus
    · rfl

end Number

/-- The digits of an integer are read as that integer. -/
theorem Number.ofText?_integerChars (n : Int64) :
    ofText? (String.ofList (Decimal.integerChars n.toInt)) = some (.int n) := by
  have first := Decimal.isDigit_head?_append (Decimal.isNatural_digitChars n.toInt.natAbs) []
  rw [List.append_nil] at first
  have written := Decimal.isNumeral_digitChars (decide (n.toInt < 0)) n.toInt.natAbs
  rw [Decimal.integerChars_eq, ofText?_signed first written]
  refine ofUnsigned?_natural (Decimal.isNatural_digitChars _) ?_
  rw [Decimal.valueOf_digitChars]
  split
  · rename_i negative
    have := of_decide_eq_true negative
    omega
  · rename_i positive
    have : ¬ n.toInt < 0 := fun less => positive (decide_eq_true less)
    omega

namespace Literal

theorem unescape_escapeQuoted (cs : List Char) : unescape (Value.escapeQuoted cs) = cs := by
  induction cs with
  | nil => rfl
  | cons c rest ih =>
    by_cases escaped : c = '"' ∨ c = '\\'
    · rw [Value.escapeQuoted, if_pos escaped, unescape,
        if_pos (escaped.imp_right .inr), ih]
    · have plain : c ≠ '\\' := fun same => escaped (.inr same)
      rw [Value.escapeQuoted, if_neg escaped, unescape.eq_def]
      split
      · rename_i found
        cases found
      · rename_i found
        exact absurd (List.cons.inj found).1 plain
      · rename_i found
        cases found
        rw [ih]

/-- The text between quotes that a text is written as stands for that text. -/
theorem unquote_quoted (s : String) : unquote (String.ofList (Value.quoted s)) = s := by
  have last : (Value.escapeQuoted s.toList ++ ['"']).getLast? = some '"' := by simp
  rw [unquote, String.toList_ofList, Value.quoted, List.cons_append, withoutQuotes,
    if_pos (.inl rfl), if_pos last, List.dropLast_concat, unescape_escapeQuoted,
    String.ofList_toList]

theorem ofUnquoted_null : ofUnquoted "null" = .null := by
  have word : Text.lowerAscii "null" = "null" := by decide
  simp only [ofUnquoted, word, if_true]

theorem ofUnquoted_true : ofUnquoted "true" = .bool true := by
  have word : Text.lowerAscii "true" = "true" := by decide
  have other : "true" ≠ "null" := by decide
  simp only [ofUnquoted, word, other, if_true, if_false]

theorem ofUnquoted_false : ofUnquoted "false" = .bool false := by
  have word : Text.lowerAscii "false" = "false" := by decide
  have others : "false" ≠ "null" ∧ "false" ≠ "true" := by decide
  simp only [ofUnquoted, word, others, if_true, if_false]

end Literal

namespace Value

/-- The values that are written as one token. A double has to be read back from its notation. -/
def IsLiteral : Value → Prop
  | .null | .bool _ | .int _ | .text _ => True
  | .float x => Number.ofText? (Double.display x) = some (.float x)
  | .array _ | .record _ => False

end Value

theorem Double.isNumeral_of_finite {x : Float} {negative : Bool} {mantissa : Nat} {exponent : Int}
    (finite : shape x = .finite negative mantissa exponent) : Token.IsNumeral (displayChars x) := by
  unfold displayChars positionalChars
  rw [finite]
  dsimp only
  obtain ⟨nonempty, whole, digits⟩ := (Decimal.shortest .up mantissa exponent).isDigit_positional
  generalize (Decimal.shortest .up mantissa exponent).positional = parts at nonempty whole digits ⊢
  obtain ⟨front, fraction⟩ := parts
  dsimp only at nonempty whole digits ⊢
  have plain := Token.IsNumeral.mk negative nonempty whole digits
  split
  · rename_i present
    rwa [Token.numeral, if_neg present] at plain
  · rename_i absent
    rw [Token.numeral, if_pos (Decidable.not_not.mp absent), List.append_nil] at plain
    split
    · have zero : ∀ c ∈ ['0'], Text.isDigit c = true := List.forall_mem_singleton.mpr rfl
      exact .mk negative nonempty whole zero
    · exact plain

/-- A double that is read back from its notation is written in digits. -/
theorem Double.isNumeral_displayChars {x : Float}
    (readsBack : Number.ofText? (display x) = some (.float x)) :
    Token.IsNumeral (displayChars x) := by
  cases found : shape x with
  | nan =>
    have refused : Number.ofText? (display x) = none := by
      rw [display, displayChars, positionalChars, found]
      decide
    rw [refused] at readsBack
    cases readsBack
  | infinite negative =>
    have refused : Number.ofText? (display x) = none := by
      rw [display, displayChars, positionalChars, found]
      cases negative <;> decide
    rw [refused] at readsBack
    cases readsBack
  | finite => exact isNumeral_of_finite found

theorem Token.isWord_of_letters (cs : List Char) (nonempty : cs ≠ [])
    (letters : cs.all (fun c => startsName c && inName c) = true)
    (plain : Keyword.ofText? (String.ofList cs) = none) : IsWord cs := by
  obtain ⟨c, rest, rfl⟩ := List.exists_cons_of_ne_nil nonempty
  refine ⟨?_, plain⟩
  have all (d : Char) (member : d ∈ c :: rest) : startsName d = true ∧ inName d = true :=
    Bool.and_eq_true_iff.mp (List.all_eq_true.mp letters d member)
  have path := IsPath.bare (all c (List.mem_cons_self ..)).1
    (fun d member => (all d (List.mem_cons_of_mem _ member)).2) (.inl rfl) .done
  rwa [List.append_nil, List.append_nil] at path

/-- A literal value is written as one token that stands for it. -/
theorem Value.exists_literal {v : Value} (isLiteral : v.IsLiteral) :
    ∃ t, Token.IsPiece v.displayChars t ∧ Statement.literal? t = some v ∧
      Argument.ofToken? t = some (.ok (.literal v)) := by
  have word {w : String} (isWord : Token.IsWord w.toList)
      (stands : Literal.ofUnquoted w = v) (other : ∀ s, v ≠ .text s) :
      ∃ t, Token.IsPiece w.toList t ∧ Statement.literal? t = some v ∧
        Argument.ofToken? t = some (.ok (.literal v)) := by
    refine ⟨_, isWord.isPiece, ?_, ?_⟩
    · rw [String.ofList_toList, Statement.literal?, stands]
    · rw [String.ofList_toList, Argument.ofToken?, stands]
      split
      · exact absurd rfl (other _)
      · rfl
  have letters_null := Token.isWord_of_letters "null".toList (by decide) rfl (by decide)
  have letters_true := Token.isWord_of_letters "true".toList (by decide) rfl (by decide)
  have letters_false := Token.isWord_of_letters "false".toList (by decide) rfl (by decide)
  have number {cs : List Char} {n : Number} (written : Token.IsNumeral cs)
      (read : Number.ofText? (String.ofList cs) = some n) (same : .ofNumber n = v) :
      ∃ t, Token.IsPiece cs t ∧ Statement.literal? t = some v ∧
        Argument.ofToken? t = some (.ok (.literal v)) := by
    refine ⟨_, written.isPiece, ?_, ?_⟩
    · rw [Statement.literal?, written.ofUnquoted read, same]
    · rw [Argument.ofToken?, written.ofUnquoted read, same]
  cases v with
  | null => exact word letters_null Literal.ofUnquoted_null nofun
  | bool b =>
    cases b with
    | true => exact word letters_true Literal.ofUnquoted_true nofun
    | false => exact word letters_false Literal.ofUnquoted_false nofun
  | int n => exact number (Decimal.isNumeral_integerChars _) (Number.ofText?_integerChars n) rfl
  | float x => exact number (Double.isNumeral_displayChars isLiteral) isLiteral rfl
  | text s =>
    refine ⟨_, Token.isPiece_quoted s, ?_, ?_⟩
    · rw [Statement.literal?, Literal.unquote_quoted]
    · rw [Argument.ofToken?, Literal.unquote_quoted]
  | array items => exact isLiteral.elim
  | record fields => exact isLiteral.elim

end RecordQuery
