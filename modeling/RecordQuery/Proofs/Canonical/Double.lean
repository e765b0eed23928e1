import RecordQuery.Proofs.Canonical.Value
import RecordQuery.Proofs.Decimal.Whole
import RecordQuery.Proofs.Double.Scientific

namespace RecordQuery

open Lexeme (byteLength)
open Statement (literal?)
open Token (Stops)

/-- A whole number of at least sixteen places, which is written without a point. -/
def Decimal.LongWhole (d : Decimal) : Prop :=
  0 ≤ d.exponent ∧ 15 ≤ d.leadingExponent

instance (d : Decimal) : Decidable d.LongWhole :=
  inferInstanceAs (Decidable (_ ∧ _))

namespace Double

/-- The whole numbers that are written without a point although they are in the range of an
integer. -/
def LooksIntegral (x : Float) : Prop :=
  isWhole x = true ∧ ∃ n ∈ truncate? x, 10 ^ 15 ≤ n.natAbs ∧ n.natAbs < 2 ^ 63

instance (x : Float) : Decidable (LooksIntegral x) :=
  inferInstanceAs (Decidable (_ ∧ _))

section

variable {x : Float} {negative : Bool} {m : ℕ} {e : ℤ}

theorem isWhole_iff (finite : shape x = .finite negative m e) :
    isWhole x = true ↔ ∃ n : ℕ, (m : ℚ) * 2 ^ e = n := by
  constructor
  · intro whole
    obtain ⟨n, -, value⟩ := exists_truncate? finite whole
    exact ⟨n, value.symm⟩
  · rintro ⟨n, value⟩
    rw [isWhole, finite]
    by_cases large : 0 ≤ e
    · simp [large]
    · obtain ⟨k, rfl⟩ : ∃ k : ℕ, e = -k := ⟨e.natAbs, by omega⟩
      have unit : (0 : ℚ) < 2 ^ k := by positivity
      rw [zpow_neg, zpow_natCast, ← div_eq_mul_inv, div_eq_iff unit.ne'] at value
      have product : m = n * 2 ^ k := by exact_mod_cast value
      simp [product]

theorem looksIntegral_iff (finite : shape x = .finite negative m e) :
    LooksIntegral x ↔ (∃ n : ℕ, (m : ℚ) * 2 ^ e = n) ∧
      10 ^ (15 : ℤ) ≤ (m : ℚ) * 2 ^ e ∧ (m : ℚ) * 2 ^ e < 2 ^ 63 := by
  rw [LooksIntegral, ← isWhole_iff finite]
  refine and_congr_right fun whole => ?_
  obtain ⟨n, truncated, value⟩ := exists_truncate? finite whole
  have size : (if negative then -(n : ℤ) else n).natAbs = n := by
    split <;> simp
  have low : 10 ^ (15 : ℤ) ≤ (n : ℚ) ↔ 10 ^ 15 ≤ n := by
    norm_cast
  have high : (n : ℚ) < 2 ^ 63 ↔ n < 2 ^ 63 := by
    norm_cast
  rw [truncated, ← value, low, high]
  simp only [Option.mem_some_iff, exists_eq_left', size]

/-- The numbers that are written without a point, told by their shortest decimals. -/
theorem looksIntegral_iff_shortest (finite : shape x = .finite negative m e) :
    LooksIntegral x ↔
      (Decimal.shortest .up m e).LongWhole ∧ (Decimal.shortest .up m e).toRat < 2 ^ 63 := by
  have canonical := canonical_of_finite finite
  have bound := canonical.mantissa_lt
  rw [looksIntegral_iff finite, Decimal.LongWhole]
  rcases Nat.eq_zero_or_pos m with rfl | positive
  · rw [Decimal.leadingExponent_shortest_zero, Nat.cast_zero, zero_mul]
    norm_num
  · have large : 10 ^ (15 : ℤ) ≤ (m : ℚ) * 2 ^ e ↔
        15 ≤ (Decimal.shortest .up m e).leadingExponent := by
      rw [← not_lt, ← Decimal.toRat_shortest_lt_ten_pow canonical positive,
        ← Decimal.leadingExponent_lt_iff (Decimal.digits_shortest_pos positive bound e .up), not_lt]
    rw [← Decimal.exponent_shortest_nonneg_iff positive bound .up,
      ← (Decimal.toRat_shortest_lt_two_pow canonical positive).1, large, and_assoc]

/-- The notation has no point exactly when the shortest decimal is a long whole number. -/
theorem displayChars_eq (finite : shape x = .finite negative m e) {d : Decimal}
    (short : Decimal.shortest .up m e = d) :
    displayChars x = signChars negative ++
      if d.LongWhole then d.positional.1
      else d.positional.1 ++ '.' ::
        if d.positional.2 = [] then ['0'] else d.positional.2 := by
  have fraction := d.positional_eq_nil_iff
  rw [displayChars, positionalChars, finite]
  dsimp only
  rw [short]
  congr 1
  by_cases whole : d.positional.2 = []
  · have nonneg := fraction.mp whole
    by_cases small : d.leadingExponent < 15
    · have pointed : ¬ d.LongWhole := fun long => absurd small (not_lt.mpr long.2)
      rw [if_neg (not_not.mpr whole), if_pos ⟨rfl, small⟩, if_neg pointed, if_pos whole]
    · have long : d.LongWhole := ⟨nonneg, not_lt.mp small⟩
      rw [if_neg (not_not.mpr whole), if_neg fun both => small both.2, if_pos long]
  · have pointed : ¬ d.LongWhole := fun long => whole (fraction.mpr long.1)
    rw [if_pos whole, if_neg pointed, if_neg whole]

theorem ofText?_display (finite : shape x = .finite negative m e) {body : List Char}
    (written : displayChars x = signChars negative ++ body)
    (first : ∀ c ∈ body.head?, Text.isDigit c = true) :
    Number.ofText? (display x) = Number.ofUnsigned? negative body := by
  have numeral := isNumeral_of_finite finite
  rw [written] at numeral
  rw [display, written, Number.ofText?_signed first numeral]

/-- A notation with a point is read back as the double. -/
theorem ofText?_display_pointed (finite : shape x = .finite negative m e) {d : Decimal}
    (short : Decimal.shortest .up m e = d) (pointed : ¬ d.LongWhole) :
    Number.ofText? (display x) = some (.float x) := by
  have written := displayChars_eq finite short
  rw [if_neg pointed] at written
  obtain ⟨nonempty, whole, digits⟩ := d.isDigit_positional
  have natural := Decimal.isNatural_iff.mpr ⟨nonempty, whole⟩
  have behind : Decimal.isNatural (if d.positional.2 = [] then ['0'] else d.positional.2) =
      true := by
    split
    · rfl
    · exact Decimal.isNatural_iff.mpr ⟨‹_›, digits⟩
  have first := Decimal.isDigit_head?_append natural
  have value := d.toRat_pointed rfl
  rw [← short] at value
  rw [ofText?_display finite written (first _), Number.ofUnsigned?_pointed natural behind, ← short,
    ofDigits_of_shortest finite (by rw [zero_sub]; exact value)]

/-- A notation without a point is read back as the integer that it denotes, and as the double when
it denotes none. -/
theorem ofText?_display_plain (finite : shape x = .finite negative m e) {d : Decimal}
    (short : Decimal.shortest .up m e = d) (plain : d.LongWhole) :
    ∃ v : ℕ, (v : ℚ) = d.toRat ∧
      Number.ofText? (display x) = match int64? (if negative then -(v : Int) else v) with
        | some i => some (.int i)
        | none => some (.float x) := by
  have written := displayChars_eq finite short
  rw [if_pos plain] at written
  obtain ⟨nonempty, whole, -⟩ := d.isDigit_positional
  have natural := Decimal.isNatural_iff.mpr ⟨nonempty, whole⟩
  have first := Decimal.isDigit_head?_append natural []
  rw [List.append_nil] at first
  have value := d.toRat_positional
  rw [d.positional_eq_nil_iff.mpr plain.1] at value
  have read := @Number.ofUnsigned?_digits negative _ natural
  rw [ofDigits_of_shortest finite (by rw [zero_sub, short]; exact value)] at read
  exact ⟨Decimal.valueOf d.positional.1, by simpa using value,
    (ofText?_display finite written first).trans read⟩

/-- What is read back from the notation of a finite double. Only a whole number that is written
without a point is read as an integer, and the double of that integer is the same number. -/
theorem ofText?_display_iff (finite : shape x = .finite negative m e) :
    (¬ LooksIntegral x → Number.ofText? (display x) = some (.float x)) ∧
      (LooksIntegral x → ∃ n : Int64, Number.ofText? (display x) = some (.int n) ∧
        Float.ofInt n.toInt = x) := by
  have canonical := canonical_of_finite finite
  have bound := canonical.mantissa_lt
  rw [looksIntegral_iff_shortest finite]
  by_cases plain : (Decimal.shortest .up m e).LongWhole
  · have positive : 0 < m := by
      rcases Nat.eq_zero_or_pos m with rfl | positive
      · rw [Decimal.LongWhole, Decimal.leadingExponent_shortest_zero] at plain
        omega
      · exact positive
    obtain ⟨v, denotes, read⟩ := ofText?_display_plain finite rfl plain
    have apart : v ≠ 2 ^ 63 := by
      have notEqual := (Decimal.toRat_shortest_lt_two_pow canonical positive).2
      rw [← denotes] at notEqual
      exact_mod_cast notEqual
    have limit : (Decimal.shortest .up m e).toRat < 2 ^ 63 ↔ v < 2 ^ 63 := by
      rw [← denotes]
      norm_cast
    have inRange : (Int64.minValue.toInt ≤ (if negative then -(v : ℤ) else v) ∧
        (if negative then -(v : ℤ) else v) ≤ Int64.maxValue.toInt) ↔ v < 2 ^ 63 := by
      change (-(2 ^ 63 : ℤ) ≤ _ ∧ _ ≤ (2 ^ 63 - 1 : ℤ)) ↔ _
      split <;> omega
    rw [and_iff_right plain, limit]
    constructor
    · intro beyond
      rw [read, int64?, if_neg (mt inRange.mp beyond)]
    · intro inside
      have fits : int64? (if negative then -(v : ℤ) else v) = some _ := if_pos (inRange.mpr inside)
      refine ⟨_, by rw [read, fits], ?_⟩
      rw [int64?_eq_some.mp fits]
      refine ofInt_of_contains finite positive ?_
      rw [denotes]
      exact Decimal.contains_shortest positive bound e .up
  · exact ⟨fun _ => ofText?_display_pointed finite rfl plain, fun integral => absurd integral.1 plain⟩

end

end Double

/-- A finite double is written as one numeral, and from it the same double is read, unless it is a
whole number that is written without a point although it is in the range of an integer. Then an
integer is read, and the double of that integer is the same number. -/
theorem Value.floatNotation_read (x : Float) (finite : Double.isFinite x = true) :
    (∀ behind, Stops behind → ∀ start,
      Lexeme.ofChars start ((Value.float x).displayChars ++ behind) =
        ⟨start, start + byteLength (Value.float x).displayChars, .number (Double.display x),
          behind⟩ :: Lexeme.ofChars (start + byteLength (Value.float x).displayChars) behind) ∧
      (¬ Double.LooksIntegral x → literal? (.number (Double.display x)) = some (.float x)) ∧
      (Double.LooksIntegral x → ∃ n : Int64,
        literal? (.number (Double.display x)) = some (.int n) ∧ Float.ofInt n.toInt = x) := by
  obtain ⟨negative, m, e, parts⟩ := Double.exists_shape finite
  have numeral := Double.isNumeral_of_finite parts
  obtain ⟨asDouble, asInteger⟩ := Double.ofText?_display_iff parts
  refine ⟨fun behind stops start => Lexeme.ofChars_piece numeral.isPiece stops start, ?_, ?_⟩
  · intro ordinary
    rw [literal?, Double.display, numeral.ofUnquoted (asDouble ordinary)]
    rfl
  · intro integral
    obtain ⟨n, read, same⟩ := asInteger integral
    refine ⟨n, ?_, same⟩
    rw [literal?, Double.display, numeral.ofUnquoted read]
    rfl

theorem Value.floatNotation_read_tenth :
    (Lexeme.ofChars 4 ['0', '.', '1', ','] =
        ⟨4, 7, .number "0.1", [',']⟩ :: Lexeme.ofChars 7 [','] ∧
      literal? (.number "0.1") = some (.float 0.1)) ∧
      ∃ n : Int64, literal? (.number "4611686018427388000") = some (.int n) ∧
        Float.ofInt n.toInt = 4611686018427387904.0 := by
  obtain ⟨tenth, asDouble, -⟩ := floatNotation_read 0.1 (by decide)
  obtain ⟨-, -, asInteger⟩ := floatNotation_read 4611686018427387904.0 (by decide)
  have spelled : Double.displayChars 0.1 = ['0', '.', '1'] := by decide +kernel
  have power : Double.displayChars 4611686018427387904.0 = "4611686018427388000".toList := by
    decide +kernel
  rw [displayChars, Double.display, spelled] at tenth
  rw [Double.display, spelled] at asDouble
  rw [Double.display, power] at asInteger
  exact ⟨⟨tenth [','] (Stops.comma _) 4, asDouble (by decide)⟩, asInteger (by decide)⟩

/-- Ten to the fifteenth is written without a point and read back as an integer. -/
theorem Value.not_floatNotation_read :
    ¬ ∀ x : Float, Double.isFinite x = true → ∃ t, literal? t = some (.float x) ∧
      ∀ behind, Stops behind → ∀ start,
        Lexeme.ofChars start ((Value.float x).displayChars ++ behind) =
          ⟨start, start + byteLength (Value.float x).displayChars, t, behind⟩ ::
            Lexeme.ofChars (start + byteLength (Value.float x).displayChars) behind := by
  intro always
  obtain ⟨t, literal, cut⟩ := always 1e15 (by decide)
  have spelled : (Value.float 1e15).displayChars = "1000000000000000".toList := by
    rw [displayChars]
    decide +kernel
  have lexed := cut [] Stops.nil 0
  rw [spelled] at lexed
  have number : Lexeme.ofChars 0 ("1000000000000000".toList ++ []) =
      [⟨0, 16, .number "1000000000000000", []⟩] := by decide +kernel
  rw [number] at lexed
  obtain rfl := congrArg Lexeme.token (List.cons.inj lexed).1
  have kind : (literal? (.number "1000000000000000")).map typeName = some "int" := by
    decide +kernel
  rw [literal] at kind
  exact absurd kind (by decide)

end RecordQuery
