import RecordQuery.Number
import RecordQuery.Proofs.Decimal.Digits
import RecordQuery.Proofs.Text.Blank
import RecordQuery.Proofs.Token.Path
import RecordQuery.Statement.Literal

namespace RecordQuery

open Decimal (isNatural valueOf)

theorem Text.isBlank_of_isDigit {c : Char} (digit : isDigit c = true) : isBlank c = false := by
  simp only [isDigit, Bool.and_eq_true, decide_eq_true_eq, Char.le_def,
    UInt32.le_iff_toNat_le] at digit
  have low : 48 ≤ c.toNat := digit.1
  have high : c.toNat ≤ 57 := digit.2
  simp only [isBlank, Bool.or_eq_false_iff, Bool.and_eq_false_iff, beq_eq_false_iff_ne,
    decide_eq_false_iff_not]
  omega

theorem Text.toLower_of_isDigit {c : Char} (digit : isDigit c = true) : c.toLower = c := by
  simp only [isDigit, Bool.and_eq_true, decide_eq_true_eq, Char.le_def,
    UInt32.le_iff_toNat_le] at digit
  have high : c.val.toNat ≤ 57 := digit.2
  refine dif_neg fun upper => ?_
  have bound : 65 ≤ c.val.toNat := UInt32.le_iff_toNat_le.mp upper.1
  omega

namespace Number

/-- The exponent of a number as it is written: a mark, a sign or none, and digits. -/
structure ExponentSpelling where
  mark : Char
  sign : List Char
  digits : List Char
  marks : mark = 'e' ∨ mark = 'E'
  signs : sign = [] ∨ sign = ['+'] ∨ sign = ['-']
  natural : isNatural digits = true

namespace ExponentSpelling

def chars (e : ExponentSpelling) : List Char :=
  e.mark :: (e.sign ++ e.digits)

def value (e : ExponentSpelling) : Int :=
  if e.sign = ['-'] then -valueOf e.digits else valueOf e.digits

end ExponentSpelling

/-- A number as it is written: a sign or none, digits, and if there are any, a fraction behind a
point and an exponent. -/
structure Spelling where
  negative : Bool
  whole : List Char
  fraction : Option (List Char)
  exponent : Option ExponentSpelling
  natural : isNatural whole = true
  fractions : ∀ digits ∈ fraction, isNatural digits = true

namespace Spelling

def mantissaChars (k : Spelling) : List Char :=
  k.whole ++ k.fraction.elim [] ('.' :: ·)

/-- The characters behind the sign. -/
def bodyChars (k : Spelling) : List Char :=
  k.mantissaChars ++ k.exponent.elim [] ExponentSpelling.chars

def chars (k : Spelling) : List Char :=
  Double.signChars k.negative ++ k.bodyChars

/-- Whether there are digits only, with a sign or without. -/
def isPlain (k : Spelling) : Bool :=
  k.fraction.isNone && k.exponent.isNone

/-- The integer that the digits in front of a point denote with the sign. -/
def integer (k : Spelling) : Int :=
  if k.negative then -valueOf k.whole else valueOf k.whole

/-- The double next to the decimal that is written. -/
def double (k : Spelling) : Float :=
  Double.ofDigits k.negative k.whole (k.fraction.getD [])
    (k.exponent.elim 0 ExponentSpelling.value)

/-- The number that is written: an integer for digits only, as far as it fits, or else a double. -/
def number (k : Spelling) : Number :=
  match if k.isPlain then int64? k.integer else none with
  | some n => .int n
  | none => .float k.double

end Spelling

section

variable {negative : Bool} {digits : List Char}

theorem isMark_eq_false {c : Char} (digit : Text.isDigit c = true) :
    (c == 'e' || c == 'E') = false := by
  rw [Bool.or_eq_false_iff, beq_eq_false_iff_ne, beq_eq_false_iff_ne]
  exact ⟨Token.ne_of_holds digit rfl, Token.ne_of_holds digit rfl⟩

theorem exponent?_spelled (e : ExponentSpelling) :
    exponent? (e.sign ++ e.digits) = some e.value := by
  obtain ⟨mark, sign, digits, -, signs, natural⟩ := e
  have plain : exponent? digits = some (valueOf digits : Int) := by
    obtain ⟨nonempty, all⟩ := Decimal.isNatural_iff.mp natural
    obtain ⟨c, rest, rfl⟩ := List.exists_cons_of_ne_nil nonempty
    have digit := all c (List.mem_cons_self ..)
    unfold exponent?
    split
    · rename_i same
      exact absurd (List.cons.inj same).1 (Token.ne_of_holds digit rfl)
    · rename_i same
      exact absurd (List.cons.inj same).1 (Token.ne_of_holds digit rfl)
    · exact if_pos natural
  rcases signs with rfl | rfl | rfl
  · exact plain
  · exact if_pos natural
  · exact if_pos natural

/-- What is read behind a mark is an exponent. -/
theorem exists_of_exponent? {mark : Char} {text : List Char} {n : Int}
    (marks : mark = 'e' ∨ mark = 'E') (read : exponent? text = some n) :
    ∃ e : ExponentSpelling, e.chars = mark :: text := by
  unfold exponent? at read
  split at read <;> split at read
  · rename_i natural
    exact ⟨⟨mark, ['-'], _, marks, .inr (.inr rfl), natural⟩, rfl⟩
  · cases read
  · rename_i natural
    exact ⟨⟨mark, ['+'], _, marks, .inr (.inl rfl), natural⟩, rfl⟩
  · cases read
  · rename_i natural
    exact ⟨⟨mark, [], _, marks, .inl rfl, natural⟩, rfl⟩
  · cases read

end

namespace Spelling

variable (k : Spelling)

theorem splitAtFirst_mantissaChars :
    Text.splitAtFirst (· == '.') k.mantissaChars = (k.whole, k.fraction) := by
  have absent : ∀ c ∈ k.whole, (c == '.') = false := fun c member =>
    beq_false_of_ne (Token.ne_of_holds ((Decimal.isNatural_iff.mp k.natural).2 c member) rfl)
  unfold mantissaChars
  cases k.fraction with
  | none =>
    rw [Option.elim_none, List.append_nil]
    exact Text.splitAtFirst_of_all absent
  | some digits => exact Text.splitAtFirst_append absent rfl digits

theorem splitAtFirst_bodyChars :
    Text.splitAtFirst (fun c => c == 'e' || c == 'E') k.bodyChars =
      (k.mantissaChars, k.exponent.map fun e => e.sign ++ e.digits) := by
  have absent : ∀ c ∈ k.mantissaChars, (c == 'e' || c == 'E') = false := by
    have digits {ds : List Char} (natural : isNatural ds = true) :
        ∀ c ∈ ds, (c == 'e' || c == 'E') = false :=
      fun c member => isMark_eq_false ((Decimal.isNatural_iff.mp natural).2 c member)
    intro c member
    rcases List.mem_append.mp member with inWhole | inFraction
    · exact digits k.natural c inWhole
    · cases found : k.fraction with
      | none =>
        rw [found] at inFraction
        cases inFraction
      | some ds =>
        rw [found] at inFraction
        rcases List.mem_cons.mp inFraction with rfl | later
        · rfl
        · exact digits (k.fractions ds found) c later
  unfold bodyChars
  cases k.exponent with
  | none =>
    rw [Option.elim_none, List.append_nil]
    exact Text.splitAtFirst_of_all absent
  | some e =>
    have mark : (e.mark == 'e' || e.mark == 'E') = true := by
      rcases e.marks with found | found <;> rw [found] <;> rfl
    exact Text.splitAtFirst_append absent mark _

/-- The characters behind the sign are read as the number that is written. -/
theorem ofUnsigned?_bodyChars : ofUnsigned? k.negative k.bodyChars = some k.number := by
  have plain : k.isPlain = (k.fraction.isNone && k.exponent.isNone) := rfl
  simp only [ofUnsigned?, k.splitAtFirst_bodyChars, k.splitAtFirst_mantissaChars, k.natural,
    number, plain, double]
  cases fraction : k.fraction with
  | none =>
    cases exponent : k.exponent with
    | none =>
      change (match int64? k.integer with
        | some i => some (Number.int i)
        | none => _) = _
      cases int64? k.integer <;> rfl
    | some e =>
      simp only [Option.map_some, exponent?_spelled]
      rfl
  | some digits =>
    have natural := k.fractions digits fraction
    cases exponent : k.exponent with
    | none =>
      simp only [Option.map_none, natural]
      rfl
    | some e =>
      simp only [Option.map_some, exponent?_spelled, natural]
      rfl

/-- The parts of what is read are digits and an exponent. -/
theorem parts_of_ofUnsigned? {negative : Bool} {body mantissa whole : List Char}
    {mark point : Option (List Char)} {n : Number}
    (cut : Text.splitAtFirst (fun c => c == 'e' || c == 'E') body = (mantissa, mark))
    (cutMantissa : Text.splitAtFirst (· == '.') mantissa = (whole, point))
    (read : ofUnsigned? negative body = some n) :
    isNatural whole = true ∧ (∀ digits ∈ point, isNatural digits = true) ∧
      ∀ text ∈ mark, ∃ m, exponent? text = some m := by
  have single {α : Type} {p : α → Prop} {a : α} (holds : p a) : ∀ b ∈ some a, p b :=
    fun b same => Option.some.inj same ▸ holds
  simp only [ofUnsigned?, cut, cutMantissa, Bool.not_eq_true'] at read
  split at read
  · cases read
  rename_i whole
  rw [Bool.not_eq_false] at whole
  split at read
  · exact ⟨whole, nofun, nofun⟩
  · split at read
    · rename_i fraction
      exact ⟨whole, single fraction, nofun⟩
    · cases read
  · obtain ⟨m, exponent, -⟩ := Option.map_eq_some_iff.mp read
    exact ⟨whole, nofun, single ⟨m, exponent⟩⟩
  · split at read
    · rename_i fraction
      obtain ⟨m, exponent, -⟩ := Option.map_eq_some_iff.mp read
      exact ⟨whole, single fraction, single ⟨m, exponent⟩⟩
    · cases read

/-- What is read behind a sign is written as a number. -/
theorem exists_of_ofUnsigned? {negative : Bool} {body : List Char} {n : Number}
    (read : ofUnsigned? negative body = some n) :
    ∃ k : Spelling, k.negative = negative ∧ k.bodyChars = body := by
  rcases cut : Text.splitAtFirst (fun c => c == 'e' || c == 'E') body with ⟨mantissa, mark⟩
  rcases cutMantissa : Text.splitAtFirst (· == '.') mantissa with ⟨whole, point⟩
  obtain ⟨natural, fractions, exponents⟩ := parts_of_ofUnsigned? cut cutMantissa read
  have pointed : mantissa = whole ++ point.elim [] ('.' :: ·) := by
    rcases Text.splitAtFirst_cases cutMantissa with ⟨rfl, rfl⟩ | ⟨c, after, rfl, same, rfl⟩
    · exact (List.append_nil _).symm
    · rw [beq_iff_eq.mp same]
      rfl
  rcases Text.splitAtFirst_cases cut with ⟨rfl, rfl⟩ | ⟨c, text, rfl, marks, rfl⟩
  · exact ⟨⟨negative, whole, point, none, natural, fractions⟩, rfl,
      (List.append_nil _).trans pointed.symm⟩
  · rw [Bool.or_eq_true, beq_iff_eq, beq_iff_eq] at marks
    obtain ⟨m, exponent⟩ := exponents text rfl
    obtain ⟨e, written⟩ := exists_of_exponent? marks exponent
    refine ⟨⟨negative, whole, point, some e, natural, fractions⟩, rfl, ?_⟩
    rw [← written, pointed]
    rfl

theorem exists_cons_bodyChars :
    ∃ c rest, k.bodyChars = c :: rest ∧ Text.isDigit c = true := by
  obtain ⟨nonempty, digits⟩ := Decimal.isNatural_iff.mp k.natural
  obtain ⟨c, rest, whole⟩ := List.exists_cons_of_ne_nil nonempty
  rw [bodyChars, mantissaChars, whole]
  exact ⟨c, _, rfl, digits c (whole ▸ List.mem_cons_self ..)⟩

/-- A number begins with a minus or with a digit. -/
theorem exists_cons_chars :
    ∃ c rest, k.chars = c :: rest ∧ (c = '-' ∨ Text.isDigit c = true) := by
  obtain ⟨c, rest, body, digit⟩ := k.exists_cons_bodyChars
  rw [chars, body]
  cases k.negative with
  | true => exact ⟨'-', _, rfl, .inl rfl⟩
  | false => exact ⟨c, _, rfl, .inr digit⟩

theorem isBlank_of_mem_chars {c : Char} (member : c ∈ k.chars) : Text.isBlank c = false := by
  have visible {digits : List Char} (natural : isNatural digits = true) :
      ∀ c ∈ digits, Text.isBlank c = false :=
    fun c inside => Text.isBlank_of_isDigit ((Decimal.isNatural_iff.mp natural).2 c inside)
  rw [chars, bodyChars, mantissaChars] at member
  rcases List.mem_append.mp member with inSign | inBody
  · revert inSign
    cases k.negative <;> simp +contextual [Double.signChars, Text.isBlank]
  rcases List.mem_append.mp inBody with inMantissa | inExponent
  · rcases List.mem_append.mp inMantissa with inWhole | inFraction
    · exact visible k.natural c inWhole
    · cases fraction : k.fraction with
      | none =>
        rw [fraction] at inFraction
        cases inFraction
      | some digits =>
        rw [fraction] at inFraction
        rcases List.mem_cons.mp inFraction with rfl | inDigits
        · rfl
        · exact visible (k.fractions digits fraction) c inDigits
  · cases exponent : k.exponent with
    | none =>
      rw [exponent] at inExponent
      cases inExponent
    | some e =>
      rw [exponent] at inExponent
      rcases List.mem_cons.mp inExponent with rfl | behindMark
      · rcases e.marks with found | found <;> rw [found] <;> rfl
      rcases List.mem_append.mp behindMark with inSign | inDigits
      · rcases e.signs with found | found | found <;> rw [found] at inSign
        · cases inSign
        · exact List.mem_singleton.mp inSign ▸ rfl
        · exact List.mem_singleton.mp inSign ▸ rfl
      · exact visible e.natural c inDigits

theorem trimChars_chars : Text.trimChars k.chars = k.chars :=
  Text.trimChars_of_ends
    (fun _ first => k.isBlank_of_mem_chars (List.mem_of_mem_head? first))
    (.of_all fun _ member => k.isBlank_of_mem_chars member)

end Spelling

/-- A text is read as a number exactly when it is written as one, with blanks around it allowed. -/
theorem ofText?_eq_some_iff {s : String} {n : Number} :
    ofText? s = some n ↔ ∃ k : Spelling, Text.trimChars s.toList = k.chars ∧ k.number = n := by
  rw [ofText?, ofChars?]
  constructor
  · intro read
    split at read
    · rename_i body trimmed
      obtain ⟨k, negative, rfl⟩ := Spelling.exists_of_ofUnsigned? read
      have spelled := k.ofUnsigned?_bodyChars
      rw [negative, read] at spelled
      refine ⟨k, ?_, (Option.some.inj spelled).symm⟩
      rw [trimmed, Spelling.chars, negative]
      rfl
    · obtain ⟨k, positive, body⟩ := Spelling.exists_of_ofUnsigned? read
      have spelled := k.ofUnsigned?_bodyChars
      rw [positive, body, read] at spelled
      refine ⟨k, ?_, (Option.some.inj spelled).symm⟩
      rw [Spelling.chars, positive, body]
      rfl
  · rintro ⟨k, trimmed, rfl⟩
    have spelled := k.ofUnsigned?_bodyChars
    rw [Spelling.chars] at trimmed
    cases sign : k.negative with
    | true =>
      rw [sign] at trimmed spelled
      rw [trimmed]
      exact spelled
    | false =>
      obtain ⟨c, rest, body, digit⟩ := k.exists_cons_bodyChars
      rw [sign] at trimmed spelled
      rw [body] at spelled
      rw [trimmed, body]
      split
      · rename_i same
        exact absurd (List.cons.inj same).1 (Token.ne_of_holds digit rfl)
      · exact spelled

theorem ofText?_chars (k : Spelling) : ofText? (String.ofList k.chars) = some k.number :=
  ofText?_eq_some_iff.mpr ⟨k, by rw [String.toList_ofList, k.trimChars_chars], rfl⟩

/-- A number stands for itself where it is not quoted. -/
theorem ofUnquoted_chars (k : Spelling) :
    Literal.ofUnquoted (String.ofList k.chars) = .ofNumber k.number := by
  have number := ofText?_chars k
  have trimmed : Text.trim (String.ofList k.chars) = String.ofList k.chars := by
    rw [Text.trim, String.toList_ofList, k.trimChars_chars]
  obtain ⟨c, rest, written, first⟩ := k.exists_cons_chars
  have same : c.toLower = c := by
    rcases first with rfl | digit
    · rfl
    · exact Text.toLower_of_isDigit digit
  have word {w : String} {d : Char} (begins : w.toList.head? = some d) (minus : d ≠ '-')
      (letter : Text.isDigit d = false) : Text.lowerAscii (String.ofList k.chars) ≠ w := by
    rintro rfl
    rw [Text.lowerAscii, String.toList_ofList, String.toList_ofList, written, List.map_cons,
      same] at begins
    obtain rfl : c = d := Option.some.inj begins
    rcases first with found | found
    · exact minus found
    · rw [letter] at found
      cases found
  have null := word (w := "null") rfl (by decide) rfl
  have yes := word (w := "true") rfl (by decide) rfl
  have no := word (w := "false") rfl (by decide) rfl
  simp only [Literal.ofUnquoted, null, yes, no, if_false, trimmed, if_true, number]

end Number

end RecordQuery
