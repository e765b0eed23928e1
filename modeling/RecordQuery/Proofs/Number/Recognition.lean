import RecordQuery.Proofs.Canonical.Literal
import RecordQuery.Proofs.Token.Origin

namespace RecordQuery

open Decimal (isNatural)
open Number (ExponentSpelling Spelling)

namespace Token

variable {c : Char} {rest : List Char}

/-- What is taken for a fraction is one. -/
theorem exists_fraction (cs : List Char) :
    ∃ fraction : Option (List Char), (∀ digits ∈ fraction, isNatural digits = true) ∧
      cs.take (fractionLength cs) = fraction.elim [] ('.' :: ·) := by
  unfold fractionLength
  split
  · rename_i rest
    obtain ⟨run, behind, rfl, all, -, length⟩ := exists_run Text.isDigit rest
    simp only [length]
    split
    · exact ⟨none, nofun, rfl⟩
    · rename_i some
      refine ⟨.some run, ?_, by rw [List.take_succ_cons, List.take_left]; rfl⟩
      rintro digits ⟨⟩
      exact Decimal.isNatural_iff.mpr ⟨fun empty => some (empty ▸ rfl), all⟩
  · exact ⟨none, nofun, rfl⟩

/-- Digits behind a mark and a sign are taken for an exponent. -/
theorem exists_signed_exponent {sign : List Char} (marks : c = 'e' ∨ c = 'E')
    (signs : sign = [] ∨ sign = ['+'] ∨ sign = ['-']) (cs : List Char) :
    ∃ exponent : Option ExponentSpelling,
      (c :: (sign ++ cs)).take
          (if runLength Text.isDigit cs = 0 then 0
            else 1 + sign.length + runLength Text.isDigit cs) =
        exponent.elim [] ExponentSpelling.chars := by
  obtain ⟨run, behind, rfl, all, -, length⟩ := exists_run Text.isDigit cs
  rw [length]
  split
  · exact ⟨none, rfl⟩
  · rename_i some
    have natural : isNatural run = true :=
      Decimal.isNatural_iff.mpr ⟨fun empty => some (empty ▸ rfl), all⟩
    refine ⟨.some ⟨c, sign, run, marks, signs, natural⟩, ?_⟩
    rw [Nat.add_assoc, Nat.add_comm 1, List.take_succ_cons, ← List.append_assoc,
      ← List.length_append, List.take_left]
    rfl

/-- What is taken for an exponent is one. -/
theorem exists_exponent (cs : List Char) :
    ∃ exponent : Option ExponentSpelling,
      cs.take (exponentLength cs) = exponent.elim [] ExponentSpelling.chars := by
  unfold exponentLength
  split
  · rename_i c rest
    split
    · rename_i marks
      dsimp only
      split
      · exact exists_signed_exponent marks (.inr (.inl rfl)) _
      · exact exists_signed_exponent marks (.inr (.inr rfl)) _
      · exact exists_signed_exponent marks (.inl rfl) rest
    · exact ⟨none, rfl⟩
  · exact ⟨none, rfl⟩

/-- From its first digit on, what is taken for a number is written as one. -/
theorem exists_spelling_of_digit (digit : Text.isDigit c = true) (negative : Bool)
    (rest : List Char) :
    ∃ k : Spelling, k.negative = negative ∧
      k.bodyChars = c :: rest.take (numberLength rest) := by
  obtain ⟨run, behind, rfl, all, -, length⟩ := exists_run Text.isDigit rest
  obtain ⟨fraction, fractions, point⟩ := exists_fraction behind
  obtain ⟨exponent, mark⟩ := exists_exponent (behind.drop (fractionLength behind))
  have natural : isNatural (c :: run) = true :=
    Decimal.isNatural_iff.mpr ⟨List.cons_ne_nil c run, List.forall_mem_cons.mpr ⟨digit, all⟩⟩
  refine ⟨⟨negative, c :: run, fraction, exponent, natural, fractions⟩, rfl, ?_⟩
  simp only [numberLength, length, List.drop_left, ← List.drop_drop, Nat.add_assoc]
  rw [List.take_length_add_append, List.take_add, point, mark]
  simp [Spelling.bodyChars, Spelling.mantissaChars]

theorem scanSteps_ne_number (name : Nat) (text : String) :
    (scanSteps c rest name).1 ≠ .number text := by
  unfold scanSteps
  dsimp only
  split <;> simp [unknownToEnd, ofChars]

theorem scanName_ne_number (text : String) : (scanName c rest).1 ≠ .number text := by
  unfold scanName
  dsimp only
  split
  · exact scanSteps_ne_number _ text
  · exact scanSteps_ne_number _ text
  · split <;> simp [ofChars]

/-- A number begins with a digit, or with a minus in front of one. -/
theorem digit_of_scan {text : String} (read : (scan c rest).1 = .number text) :
    Text.isDigit c = true ∨
      ∃ d after, c = '-' ∧ rest = d :: after ∧ Text.isDigit d = true := by
  by_cases sign : c ∈ signs
  · have scans := scansSign_scan sign rest
    generalize outcome : scan c rest = scanned at read scans
    cases scans with
    | locator bracket =>
      have foreign := isForeign_scan (.inr bracket) rest
      rw [outcome, read] at foreign
      cases foreign
    | negative minus front digit => exact .inr ⟨_, _, minus, front, digit⟩
    | sign | unknown => cases read
  · rw [scan_other sign] at read
    split at read
    · split at read <;> cases read
    split at read
    · rename_i digit
      exact .inl digit
    split at read
    · split at read
      · exact absurd read (scanSteps_ne_number _ text)
      · cases read
    split at read
    · exact absurd read (scanName_ne_number text)
    · cases read

/-- What is cut out of a text as a number is written as one. -/
theorem exists_spelling_of_scan {text : String} (read : (scan c rest).1 = .number text) :
    ∃ k : Spelling, text = String.ofList k.chars := by
  rcases digit_of_scan read with digit | ⟨d, after, rfl, rfl, digit⟩
  · obtain ⟨k, positive, body⟩ := exists_spelling_of_digit digit false rest
    rw [scan_digit digit] at read
    refine ⟨k, ?_⟩
    rw [Spelling.chars, positive, body]
    exact (Token.number.inj read).symm
  · obtain ⟨k, negative, body⟩ := exists_spelling_of_digit digit true after
    have minus : scan '-' (d :: after) =
        ofChars .number '-' (d :: after) (numberLength after + 1) := if_pos digit
    rw [minus] at read
    refine ⟨k, ?_⟩
    rw [Spelling.chars, negative, body]
    exact (Token.number.inj read).symm

end Token

namespace Lexeme

variable {l : Lexeme} {s : String}

theorem exists_spelling_of_scanFrom {start : Nat} {cs : List Char}
    (member : l ∈ scanFrom start cs) (token : l.token = .number s) :
    ∃ k : Spelling, s = String.ofList k.chars := by
  induction start, cs using scanFrom.induct with
  | case1 =>
    rw [scanFrom] at member
    cases member
  | case2 start c rest space ih =>
    rw [scanFrom, if_pos space] at member
    exact ih member
  | case3 start c rest space scannedToken more scanned stop ih =>
    rw [scanFrom, if_neg space] at member
    simp only [scanned] at member
    rcases List.mem_cons.mp member with rfl | later
    · exact Token.exists_spelling_of_scan ((congrArg Prod.fst scanned).trans token)
    · exact ih later

/-- The numbers of a text are written as numbers. -/
theorem exists_spelling {text : String} (member : l ∈ ofText text) (token : l.token = .number s) :
    ∃ k : Spelling, s = String.ofList k.chars := by
  rcases of_mem_assemble member with plain | ⟨first, -, found⟩
  · exact exists_spelling_of_scanFrom plain token
  · obtain ⟨_, _, _, _, called, -⟩ := exists_of_call? found
    rw [called] at token
    cases token

end Lexeme

namespace Number

namespace Spelling

/-- Whether a number is written without a fraction and without an exponent, and denotes a 64-bit
integer. -/
def IsInteger (k : Spelling) (n : Int64) : Prop :=
  k.fraction = none ∧ k.exponent = none ∧ n.toInt = k.integer

variable (k : Spelling)

theorem isPlain_iff : k.isPlain = true ↔ k.fraction = none ∧ k.exponent = none := by
  rw [isPlain, Bool.and_eq_true, Option.isNone_iff_eq_none, Option.isNone_iff_eq_none]

/-- The integer that a number is written as, if there is one in the range. -/
theorem integer?_eq_some_iff {n : Int64} :
    (if k.isPlain then int64? k.integer else none) = some n ↔ k.IsInteger n := by
  rw [IsInteger, ← and_assoc, ← k.isPlain_iff, ← int64?_eq_some]
  split
  · rename_i plain
    exact (and_iff_right plain).symm
  · rename_i other
    exact iff_of_false nofun fun both => other both.1

theorem number_eq_int_iff {n : Int64} : k.number = .int n ↔ k.IsInteger n := by
  rw [← k.integer?_eq_some_iff, number]
  cases if k.isPlain then int64? k.integer else none with
  | none =>
    constructor
    · intro same
      cases same
    · intro same
      cases same
  | some m => rw [Number.int.injEq, Option.some.injEq]

theorem number_eq_float_iff {x : Float} :
    k.number = .float x ↔ (∀ n, ¬ k.IsInteger n) ∧ x = k.double := by
  simp only [← k.integer?_eq_some_iff]
  rw [number]
  cases if k.isPlain then int64? k.integer else none with
  | none =>
    rw [Number.float.injEq]
    refine ⟨fun same => ⟨fun n found => ?_, same.symm⟩, fun both => both.2.symm⟩
    cases found
  | some m =>
    constructor
    · intro same
      cases same
    · intro both
      exact absurd rfl (both.1 m)

end Spelling

/-- What is read as a number is what is written as one between blanks. It is an integer if it is
written as one in the range, and a double otherwise. So the text of an integer is read as that
integer, and what stands as a number in a query is not taken for a text. -/
theorem ofText?_exact :
    (∀ s, (ofText? s).isSome = true ↔ ∃ k : Spelling, Text.trimChars s.toList = k.chars) ∧
    (∀ s n, ofText? s = some (.int n) ↔
      ∃ k : Spelling, Text.trimChars s.toList = k.chars ∧ k.IsInteger n) ∧
    (∀ s x, ofText? s = some (.float x) ↔
      ∃ k : Spelling, Text.trimChars s.toList = k.chars ∧ (∀ n, ¬ k.IsInteger n) ∧ x = k.double) ∧
    (∀ n : Int64, ofText? (Value.int n).toText = some (.int n)) ∧
    ∀ text s, (∃ l ∈ Lexeme.ofText text, l.token = .number s) →
      (∃ n, Literal.ofUnquoted s = .int n) ∨ ∃ x, Literal.ofUnquoted s = .float x := by
  refine ⟨fun s => ?_, fun s n => ?_, fun s x => ?_, ofText?_integerChars, ?_⟩
  · rw [Option.isSome_iff_exists]
    constructor
    · rintro ⟨n, read⟩
      obtain ⟨k, written, -⟩ := ofText?_eq_some_iff.mp read
      exact ⟨k, written⟩
    · rintro ⟨k, written⟩
      exact ⟨k.number, ofText?_eq_some_iff.mpr ⟨k, written, rfl⟩⟩
  · simp only [ofText?_eq_some_iff, Spelling.number_eq_int_iff]
  · simp only [ofText?_eq_some_iff, Spelling.number_eq_float_iff]
  · rintro text s ⟨l, member, token⟩
    obtain ⟨k, rfl⟩ := Lexeme.exists_spelling member token
    rw [ofUnquoted_chars]
    cases k.number with
    | int n => exact .inl ⟨n, rfl⟩
    | float x => exact .inr ⟨x, rfl⟩

/-- A number with a sign, a fraction and an exponent ends where the word behind it begins. -/
theorem ofText?_exact_exponent :
    (∃ l ∈ Lexeme.ofText "a=-12.50E+3x", l.token = .number "-12.50E+3") ∧
      ((∃ n, Literal.ofUnquoted "-12.50E+3" = .int n) ∨
        ∃ x, Literal.ofUnquoted "-12.50E+3" = .float x) := by
  have cut : ∃ l ∈ Lexeme.ofText "a=-12.50E+3x", l.token = .number "-12.50E+3" := by
    decide +kernel
  exact ⟨cut, ofText?_exact.2.2.2.2 "a=-12.50E+3x" "-12.50E+3" cut⟩

end Number

end RecordQuery
