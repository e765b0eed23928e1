import RecordQuery.Proofs.Token.Path
import RecordQuery.Value

namespace RecordQuery.Token

/-- What may stand behind a piece of a text without going on with it: the end, a blank, a comma or
a closing parenthesis. -/
def Stops (behind : List Char) : Prop :=
  ∀ c ∈ behind.head?, c = ' ' ∨ c = ',' ∨ c = ')'

/-- Characters that are one token wherever a text stops behind them. -/
def IsPiece (cs : List Char) (t : Token) : Prop :=
  ∃ c rest, cs = c :: rest ∧ isSpace c = false ∧
    ∀ behind, Stops behind → scan c (rest ++ behind) = (t, rest.length)

section

variable {behind : List Char}

theorem Stops.nil : Stops [] := nofun

theorem Stops.blank (rest : List Char) : Stops (' ' :: rest) := by
  intro c first
  cases first
  exact .inl rfl

theorem Stops.comma (rest : List Char) : Stops (',' :: rest) := by
  intro c first
  cases first
  exact .inr (.inl rfl)

theorem Stops.paren (rest : List Char) : Stops (')' :: rest) := by
  intro c first
  cases first
  exact .inr (.inr rfl)

theorem Stops.append {cs : List Char} (first : Stops cs) (second : Stops behind) :
    Stops (cs ++ behind) := by
  cases cs with
  | nil => exact second
  | cons c rest => exact first

theorem Stops.endsPath (stops : Stops behind) : EndsPath behind := by
  intro c first
  rcases stops c first with rfl | rfl | rfl <;> decide

/-- A text that may be written as a path where a name or a field is expected. -/
structure IsWord (cs : List Char) : Prop where
  path : IsPath cs
  plain : Keyword.ofText? (String.ofList cs) = none

theorem IsWord.isPiece {cs : List Char} (word : IsWord cs) :
    IsPiece cs (.path (String.ofList cs)) := by
  obtain ⟨c, rest, rfl, visible, -⟩ := word.path.scan word.plain Stops.nil.endsPath
  refine ⟨c, rest, rfl, visible, fun behind stops => ?_⟩
  obtain ⟨c, rest, same, -, read⟩ := word.path.scan word.plain stops.endsPath
  cases same
  exact read

theorem IsPiece.of_keyword {c : Char} {name : List Char} {k : Keyword}
    (starts : startsName c = true) (all : ∀ d ∈ name, inName d = true)
    (word : Keyword.ofText? (String.ofList (c :: name)) = some k) :
    IsPiece (c :: name) (.keyword k) := by
  refine ⟨c, name, rfl, isSpace_of_startsName starts, fun behind stops => ?_⟩
  have ends := stops.endsPath
  have run := runLength_append all fun d first => (ends d first).1
  rw [scan_name starts, scanName_eq_word (by rwa [run, List.drop_left]), run, List.take_left, word]

theorem isPiece_keyword (k : Keyword) : IsPiece k.spelling.toList (.keyword k) := by
  have spelled : ∃ c name, k.spelling.toList = c :: name ∧ startsName c = true ∧
      (∀ d ∈ name, inName d = true) ∧ Keyword.ofText? (String.ofList (c :: name)) = some k := by
    cases k <;> exact ⟨_, _, rfl, rfl, List.all_eq_true.mp rfl, by decide⟩
  obtain ⟨c, name, same, starts, all, word⟩ := spelled
  rw [same]
  exact .of_keyword starts all word

theorem isPiece_sign (s : Sign) : IsPiece s.spelling.toList (.sign s) := by
  refine ⟨s.spelling.toList.head (by cases s <;> decide), s.spelling.toList.tail, ?_, ?_, ?_⟩
  · simp
  · cases s <;> decide
  · intro behind stops
    cases behind with
    | nil => cases s <;> rfl
    | cons c rest => rcases stops c rfl with rfl | rfl | rfl <;> cases s <;> rfl

theorem quotedLength_append (cs behind : List Char) :
    quotedLength '"' (Value.escapeQuoted cs ++ '"' :: behind) =
      ((Value.escapeQuoted cs).length + 1, true) := by
  induction cs with
  | nil => rfl
  | cons c rest ih =>
    by_cases escaped : c = '"' ∨ c = '\\'
    · have inLine : c ≠ '\n' := by rcases escaped with rfl | rfl <;> decide
      rw [Value.escapeQuoted, if_pos escaped, List.cons_append, List.cons_append, quotedLength,
        if_neg inLine, ih]
      rfl
    · obtain ⟨quote, backslash⟩ := not_or.mp escaped
      rw [Value.escapeQuoted, if_neg escaped, List.cons_append, quotedLength.eq_def]
      split
      · rename_i found
        cases found
      · rename_i found
        exact absurd (List.cons.inj found).1 backslash
      · rename_i found
        obtain ⟨rfl, rfl⟩ := List.cons.inj found
        rw [if_neg quote, if_neg backslash, ih]
        rfl

/-- A text in quotes is one token, whatever stands behind it. -/
theorem isPiece_quoted (s : String) :
    IsPiece (Value.quoted s) (.quoted (String.ofList (Value.quoted s))) := by
  refine ⟨'"', Value.escapeQuoted s.toList ++ ['"'], rfl, rfl, fun behind _ => ?_⟩
  rw [scan_other (by decide), if_pos (.inl rfl), List.append_assoc, List.singleton_append,
    quotedLength_append]
  have taken : (Value.escapeQuoted s.toList ++ '"' :: behind).take
      ((Value.escapeQuoted s.toList).length + 1) = Value.escapeQuoted s.toList ++ ['"'] := by
    rw [← List.singleton_append, ← List.append_assoc, List.take_left' (by simp)]
  simp only [if_true, ofChars, taken, List.length_append, List.length_singleton]
  rfl

/-- Digits, with a fraction behind a point if there is one. -/
def numeral (whole fraction : List Char) : List Char :=
  whole ++ if fraction = [] then [] else '.' :: fraction

theorem fractionLength_stops (stops : Stops behind) : fractionLength behind = 0 := by
  unfold fractionLength
  split
  · rcases stops _ rfl with found | found | found <;> cases found
  · rfl

theorem exponentLength_stops (stops : Stops behind) : exponentLength behind = 0 := by
  cases behind with
  | nil => rfl
  | cons c rest =>
    refine if_neg ?_
    rcases stops c rfl with rfl | rfl | rfl <;> decide

theorem numberLength_append {whole fraction : List Char}
    (wholeDigits : ∀ c ∈ whole, Text.isDigit c = true)
    (digits : ∀ c ∈ fraction, Text.isDigit c = true) (stops : Stops behind) :
    numberLength (numeral whole fraction ++ behind) = (numeral whole fraction).length := by
  have ends : ∀ c ∈ behind.head?, Text.isDigit c = false := by
    intro c first
    rcases stops c first with rfl | rfl | rfl <;> rfl
  unfold numeral
  rcases Classical.em (fraction = []) with empty | nonempty
  · rw [if_pos empty, List.append_nil]
    have run := runLength_append wholeDigits ends
    simp only [numberLength, run, List.drop_left, fractionLength_stops stops,
      exponentLength_stops stops, Nat.add_zero]
  · rw [if_neg nonempty, List.append_assoc, List.cons_append]
    have run : runLength Text.isDigit (whole ++ '.' :: (fraction ++ behind)) = whole.length := by
      refine runLength_append wholeDigits fun c first => ?_
      cases first
      decide
    have nonzero : fraction.length ≠ 0 := fun zero => nonempty (List.length_eq_zero_iff.mp zero)
    have point : fractionLength ('.' :: (fraction ++ behind)) = fraction.length + 1 := by
      simp only [fractionLength, runLength_append digits ends, if_neg nonzero]
    have left : (whole ++ '.' :: (fraction ++ behind)).drop (whole.length + (fraction.length + 1)) =
        behind := by
      rw [← List.drop_drop, List.drop_left, List.drop_succ_cons, List.drop_left]
    simp only [numberLength, run, List.drop_left, point, left, exponentLength_stops stops,
      Nat.add_zero, List.length_append, List.length_cons]

theorem scan_digit {c : Char} (digit : Text.isDigit c = true) (rest : List Char) :
    scan c rest = ofChars .number c rest (numberLength rest) := by
  have other : c ∉ signs := by
    intro member
    simp only [signs, List.mem_cons, List.not_mem_nil, or_false] at member
    rcases member with rfl | rfl | rfl | rfl | rfl | rfl | rfl | rfl | rfl | rfl <;> cases digit
  rw [scan_other other, if_neg, if_pos digit]
  rintro (rfl | rfl) <;> cases digit

/-- Digits are one token, also with a sign and with a fraction. -/
theorem isPiece_numeral (negative : Bool) {whole fraction : List Char} (nonempty : whole ≠ [])
    (wholeDigits : ∀ c ∈ whole, Text.isDigit c = true)
    (digits : ∀ c ∈ fraction, Text.isDigit c = true) :
    IsPiece (Double.signChars negative ++ numeral whole fraction)
      (.number (String.ofList (Double.signChars negative ++ numeral whole fraction))) := by
  cases whole with
  | nil => exact absurd rfl nonempty
  | cons c whole =>
    obtain ⟨first, wholeDigits⟩ := List.forall_mem_cons.mp wholeDigits
    have read (behind : List Char) (stops : Stops behind) :
        scan c (numeral whole fraction ++ behind) =
          (.number (String.ofList (c :: numeral whole fraction)),
            (numeral whole fraction).length) := by
      rw [scan_digit first, numberLength_append wholeDigits digits stops, ofChars, List.take_left]
    cases negative with
    | false =>
      refine ⟨c, numeral whole fraction, rfl, ?_, read⟩
      simp only [isSpace, Bool.or_eq_false_iff, beq_eq_false_iff_ne]
      exact ⟨⟨⟨ne_of_holds first rfl, ne_of_holds first rfl⟩, ne_of_holds first rfl⟩,
        ne_of_holds first rfl⟩
    | true =>
      refine ⟨'-', numeral (c :: whole) fraction, rfl, rfl, fun behind stops => ?_⟩
      have minus (rest : List Char) : scan '-' (c :: rest) =
          ofChars .number '-' (c :: rest) (numberLength rest + 1) := if_pos first
      have split : numeral (c :: whole) fraction = c :: numeral whole fraction := rfl
      rw [split, List.cons_append, minus, numberLength_append wholeDigits digits stops, ofChars,
        List.take_succ_cons, List.take_left]
      rfl

/-- The text of a locator in brackets, with a name in parentheses behind them or without. -/
inductive IsLocator : List Char → Prop
  | unnamed {format steps : List Char} : (∀ c ∈ format, inBrackets c = true) →
      Steps false steps → IsLocator ('[' :: (format ++ ']' :: steps))
  | named {format name steps : List Char} : (∀ c ∈ format, inBrackets c = true) →
      (∀ c ∈ name, c ≠ ')') → Steps false steps →
      IsLocator ('[' :: (format ++ ']' :: '(' :: (name ++ ')' :: steps)))

theorem scan_bracket {format : List Char} (all : ∀ c ∈ format, inBrackets c = true)
    (rest : List Char) :
    scan '[' (format ++ ']' :: rest) =
      scanPlace '[' (format ++ [']'] ++ rest) (format ++ [']']).length := by
  have run : runLength inBrackets (format ++ ']' :: rest) = format.length := by
    refine runLength_append all fun c first => ?_
    cases first
    decide
  change scanLocator '[' (format ++ ']' :: rest) = _
  simp only [scanLocator, run, List.drop_left, List.append_assoc, List.singleton_append,
    List.length_append, List.length_singleton]

section

variable {steps : List Char} (front : List Char)

theorem scanPlace_unnamed (isSteps : Steps false steps) (stops : Stops behind) :
    scanPlace '[' (front ++ (steps ++ behind)) front.length =
      (.locator (String.ofList ('[' :: (front ++ steps))), (front ++ steps).length) := by
  have noName : ∀ c ∈ (steps ++ behind).head?, c ≠ '(' := by
    intro c first
    cases isSteps with
    | done => rcases stops c first with rfl | rfl | rfl <;> decide
    | quoted | bare =>
      cases first
      decide
  have read := isSteps.stepsLength? stops.endsPath
  have taken : (front ++ (steps ++ behind)).take (front.length + steps.length) =
      front ++ steps := by
    rw [← List.append_assoc, List.take_left' (by simp)]
  unfold scanPlace
  simp only [List.drop_left]
  split
  · rename_i refused
    split at refused
    · rename_i same
      exact absurd rfl (noName '(' (by rw [same]; rfl))
    · cases refused
  · rename_i parens found
    split at found
    · rename_i same
      exact absurd rfl (noName '(' (by rw [same]; rfl))
    · cases found
      simp only [Nat.add_zero, List.drop_left, read, ofChars, taken, List.length_append]

/-- Behind a name in parentheses a locator goes on with steps, which have to come to an end. -/
theorem scanPlace_parens {name rest : List Char} (inside : ∀ c ∈ name, c ≠ ')') :
    scanPlace '[' (front ++ '(' :: (name ++ ')' :: rest)) front.length =
      match stepsLength? false rest with
      | some steps => ofChars .locator '[' (front ++ '(' :: (name ++ ')' :: rest))
          (front.length + (name.length + 2) + steps)
      | none => unknownToEnd '[' (front ++ '(' :: (name ++ ')' :: rest)) := by
  have run : runLength (fun c => c != ')') (name ++ ')' :: rest) = name.length := by
    refine runLength_append (fun c member => bne_iff_ne.mpr (inside c member)) fun c first => ?_
    cases first
    rfl
  have closed : name.length < (name ++ ')' :: rest).length := by
    simp only [List.length_append, List.length_cons]
    omega
  have left : (front ++ '(' :: (name ++ ')' :: rest)).drop (front.length + (name.length + 2)) =
      rest := by
    rw [← List.drop_drop, List.drop_left, List.drop_succ_cons]
    simp
  unfold scanPlace
  simp only [List.drop_left, run]
  rw [if_pos closed]
  cases read : stepsLength? false rest <;> simp only [left, read]

theorem scanPlace_named {name : List Char} (inside : ∀ c ∈ name, c ≠ ')')
    (read : stepsLength? false (steps ++ behind) = some steps.length) :
    scanPlace '[' (front ++ '(' :: (name ++ ')' :: (steps ++ behind))) front.length =
      (.locator (String.ofList ('[' :: (front ++ '(' :: (name ++ ')' :: steps)))),
        (front ++ '(' :: (name ++ ')' :: steps)).length) := by
  have length : (front ++ '(' :: (name ++ ')' :: steps)).length =
      front.length + (name.length + 2) + steps.length := by
    simp only [List.length_append, List.length_cons]
    omega
  have parts : front ++ '(' :: (name ++ ')' :: (steps ++ behind)) =
      front ++ '(' :: (name ++ ')' :: steps) ++ behind := by simp
  rw [scanPlace_parens front inside, read, parts]
  simp only [← length, ofChars, List.take_left]

end

theorem IsLocator.isPiece {cs : List Char} (isLocator : IsLocator cs) :
    IsPiece cs (.locator (String.ofList cs)) := by
  cases isLocator with
  | @unnamed format steps all isSteps =>
    refine ⟨'[', _, rfl, rfl, fun behind stops => ?_⟩
    have read := scanPlace_unnamed (format ++ [']']) isSteps stops
    rw [List.append_assoc, List.cons_append, scan_bracket all, read]
    simp
  | @named format name steps all inside isSteps =>
    refine ⟨'[', _, rfl, rfl, fun behind stops => ?_⟩
    have read := scanPlace_named (format ++ [']']) inside
      (isSteps.stepsLength? stops.endsPath)
    rw [List.append_assoc, List.cons_append, List.cons_append, List.append_assoc, List.cons_append,
      scan_bracket all, read]
    simp

end

end RecordQuery.Token
