import Mathlib.Algebra.Group.Int.Defs
import Mathlib.Algebra.Group.Nat.Defs
import RecordQuery.Double.Parts

namespace RecordQuery.Double

open Float.Model Float.Model.UnpackedFloat

/-- The sign of a shape as the arithmetic of doubles has it. -/
def signOf : Bool → Sign
  | true => .negative
  | false => .positive

/-- A shape as the arithmetic of doubles has it, where zero is apart from the other finite ones. -/
def Shape.unpacked : Shape → UnpackedFloat
  | .nan => .notANumber
  | .infinite negative => .infinity (signOf negative)
  | .finite negative mantissa exponent =>
    if positive : 0 < mantissa then .finite (signOf negative) mantissa exponent positive
    else .zero (signOf negative)

theorem toNat_unpackMantissa (bits : UInt64) :
    (@unpackMantissa .binary64 bits.toBitVec).toNat = bits.toNat % 2 ^ 52 := by
  simp [unpackMantissa, BitVec.extractLsb, BitVec.extractLsb'_toNat]

theorem toNat_unpackExponent (bits : UInt64) :
    (@unpackExponent .binary64 bits.toBitVec).toNat = bits.toNat / 2 ^ 52 % 2 ^ 11 := by
  simp [unpackExponent, BitVec.extractLsb, BitVec.extractLsb'_toNat, Nat.shiftRight_eq_div_pow]

theorem toNat_unpackSign (bits : UInt64) :
    (@unpackSign .binary64 bits.toBitVec).toNat = bits.toNat / 2 ^ 63 := by
  have bound := bits.toNat_lt
  change (bits.toBitVec.extractLsb 63 63).toNat = _
  simp [BitVec.extractLsb, BitVec.extractLsb'_toNat, Nat.shiftRight_eq_div_pow]
  omega

theorem ofBitVec_unpackSign (bits : UInt64) :
    Sign.ofBitVec (@unpackSign .binary64 bits.toBitVec) =
      signOf (decide (2 ^ 63 ≤ bits.toNat)) := by
  have bound := bits.toNat_lt
  have value := toNat_unpackSign bits
  by_cases high : 2 ^ 63 ≤ bits.toNat
  · have nonzero : @unpackSign .binary64 bits.toBitVec ≠ 0#1 := by
      intro zero
      rw [zero] at value
      simp at value
      omega
    rw [Sign.ofBitVec, if_neg nonzero, decide_eq_true high]
    rfl
  · have zero : @unpackSign .binary64 bits.toBitVec = 0#1 := by
      apply BitVec.eq_of_toNat_eq
      rw [value]
      simp
      omega
    rw [Sign.ofBitVec, if_pos zero, decide_eq_false high]
    rfl

theorem toNat_withLeadingOne (mantissa : BitVec 52) :
    (1#1 ++ mantissa).toNat = mantissa.toNat + 2 ^ 52 := by
  rw [BitVec.toNat_append, Nat.shiftLeft_eq, Nat.or_comm]
  exact Nat.or_two_pow_eq_add_of_lt mantissa.isLt

theorem shape_eq (x : Float) :
    shape x =
      if x.toBits.toNat / 2 ^ 52 % 2 ^ 11 = 2047 then
        if x.toBits.toNat % 2 ^ 52 = 0 then .infinite (decide (2 ^ 63 ≤ x.toBits.toNat)) else .nan
      else if x.toBits.toNat / 2 ^ 52 % 2 ^ 11 = 0 then
        .finite (decide (2 ^ 63 ≤ x.toBits.toNat)) (x.toBits.toNat % 2 ^ 52) (-1074)
      else
        .finite (decide (2 ^ 63 ≤ x.toBits.toNat)) (x.toBits.toNat % 2 ^ 52 + 2 ^ 52)
          ((x.toBits.toNat / 2 ^ 52 % 2 ^ 11 : Nat) - 1075) :=
  rfl

theorem finite_congr {a b : Sign} {m n : Nat} {e f : Int} (signs : a = b) (mantissas : m = n)
    (exponents : e = f) {first : 0 < m} {second : 0 < n} :
    finite a m e first = finite b n f second := by
  subst signs mantissas exponents
  rfl

/-- The shape that is read off the bits of a double is what its arithmetic works on. -/
theorem unpack_toModel (x : Float) : x.toModel.unpack = (shape x).unpacked := by
  have mantissa := toNat_unpackMantissa x.toBits
  have exponent := toNat_unpackExponent x.toBits
  have sign := ofBitVec_unpackSign x.toBits
  have special : @unpackExponent .binary64 x.toBits.toBitVec = -1#_ ↔
      x.toBits.toNat / 2 ^ 52 % 2 ^ 11 = 2047 := by
    rw [← exponent, ← BitVec.toNat_inj]
    rfl
  have least : @unpackExponent .binary64 x.toBits.toBitVec = 0#_ ↔
      x.toBits.toNat / 2 ^ 52 % 2 ^ 11 = 0 := by
    rw [← exponent, ← BitVec.toNat_inj]
    rfl
  have empty : @unpackMantissa .binary64 x.toBits.toBitVec = 0#_ ↔
      x.toBits.toNat % 2 ^ 52 = 0 := by
    rw [← mantissa, ← BitVec.toNat_inj]
    rfl
  change UnpackedFloat.unpack Format.binary64 x.toBits.toBitVec = _
  rw [shape_eq]
  unfold UnpackedFloat.unpack
  by_cases high : x.toBits.toNat / 2 ^ 52 % 2 ^ 11 = 2047
  · rw [if_pos (special.mpr high), if_pos high]
    by_cases fraction : x.toBits.toNat % 2 ^ 52 = 0
    · rw [if_pos (empty.mpr fraction), if_pos fraction, sign]
      rfl
    · rw [if_neg (mt empty.mp fraction), if_neg fraction]
      rfl
  · rw [if_neg (mt special.mp high), if_neg high]
    by_cases low : x.toBits.toNat / 2 ^ 52 % 2 ^ 11 = 0
    · rw [if_pos (least.mpr low), if_pos low]
      by_cases fraction : x.toBits.toNat % 2 ^ 52 = 0
      · have nothing : ¬ 0 < x.toBits.toNat % 2 ^ 52 := by rw [fraction]; decide
        rw [Shape.unpacked, dif_pos (empty.mpr fraction), dif_neg nothing, sign]
      · rw [Shape.unpacked, dif_neg (mt empty.mp fraction),
          dif_pos (Nat.pos_of_ne_zero fraction)]
        exact finite_congr sign mantissa (by rw [exponent, low]; rfl)
    · have leading : (1#1 ++ @unpackMantissa .binary64 x.toBits.toBitVec).toNat =
          x.toBits.toNat % 2 ^ 52 + 2 ^ 52 := by
        rw [← mantissa]
        exact toNat_withLeadingOne _
      rw [if_neg (mt least.mp low), if_neg low, Shape.unpacked,
        dif_pos (Nat.add_pos_right _ (by decide))]
      exact finite_congr sign leading (by rw [exponent]; rfl)

/-- The shapes that bits can give: the mantissa fills 53 bits unless the exponent is the least
one. -/
inductive Shape.Canonical : Shape → Prop
  | infinite (negative : Bool) : Canonical (.infinite negative)
  | finite (negative : Bool) {mantissa : Nat} {exponent : Int} :
      mantissa < 2 ^ 53 → -1074 ≤ exponent → exponent ≤ 971 →
      2 ^ 52 ≤ mantissa ∨ exponent = -1074 → Canonical (.finite negative mantissa exponent)

theorem Shape.Canonical.mantissa_lt {negative : Bool} {mantissa : Nat} {exponent : Int}
    (canonical : (Shape.finite negative mantissa exponent).Canonical) : mantissa < 2 ^ 53 := by
  cases canonical
  assumption

theorem Shape.Canonical.unsigned {negative : Bool} {mantissa : Nat} {exponent : Int}
    (canonical : (Shape.finite negative mantissa exponent).Canonical) :
    (Shape.finite false mantissa exponent).Canonical := by
  cases canonical with
  | finite _ bound least most full => exact .finite false bound least most full

/-- The place of a canonical shape among all of them. Both zeros have the same place. -/
def Shape.place : Shape → Int
  | .nan => 0
  | .infinite negative => (signOf negative).apply (2047 * 2 ^ 52)
  | .finite negative mantissa exponent =>
    (signOf negative).apply ((exponent + 1074) * 2 ^ 52 + mantissa)

/-- The place of a double, from its sign and its other bits. -/
def place (x : Float) : Int :=
  (signOf (decide (2 ^ 63 ≤ x.toBits.toNat))).apply (x.toBits.toNat % 2 ^ 63 : Nat)

theorem shape_canonical {x : Float} (number : shape x ≠ .nan) :
    (shape x).Canonical ∧ (shape x).place = place x := by
  have bound := x.toBits.toNat_lt
  rw [shape_eq] at number ⊢
  split at number
  · split at number
    · rename_i special empty
      rw [if_pos special, if_pos empty]
      exact ⟨.infinite _, congrArg (Sign.apply _) (by omega)⟩
    · exact absurd rfl number
  · rename_i notSpecial
    rw [if_neg notSpecial]
    split
    · exact ⟨.finite _ (by omega) (by omega) (by omega) (Or.inr rfl),
        congrArg (Sign.apply _) (by omega)⟩
    · exact ⟨.finite _ (by omega) (by omega) (by omega) (Or.inl (by omega)),
        congrArg (Sign.apply _) (by omega)⟩

/-- Exponents are compared before mantissas, which orders canonical numbers by their places. -/
theorem compare_parts {m n : Nat} {e f : Int} (mBound : m < 2 ^ 53) (nBound : n < 2 ^ 53)
    (mFull : 2 ^ 52 ≤ m ∨ e = -1074) (nFull : 2 ^ 52 ≤ n ∨ f = -1074)
    (eLeast : -1074 ≤ e) (fLeast : -1074 ≤ f) :
    (compare e f).then (compare m n) =
      compare ((e + 1074) * 2 ^ 52 + m) ((f + 1074) * 2 ^ 52 + n) := by
  rcases Int.lt_trichotomy e f with less | same | greater
  · rw [Std.compare_eq_lt.mpr less, Ordering.lt_then, eq_comm, Std.compare_eq_lt]
    omega
  · subst same
    rw [Std.ReflOrd.compare_self, Ordering.eq_then]
    rcases Nat.lt_trichotomy m n with below | equal | above
    · rw [Std.compare_eq_lt.mpr below, eq_comm, Std.compare_eq_lt]
      omega
    · rw [equal, Std.ReflOrd.compare_self, Std.ReflOrd.compare_self]
    · rw [Std.compare_eq_gt.mpr above, eq_comm, Std.compare_eq_gt]
      omega
  · rw [Std.compare_eq_gt.mpr greater, Ordering.gt_then, eq_comm, Std.compare_eq_gt]
    omega

theorem compare_then_swap (m n : Nat) (e f : Int) :
    (compare f e).then (compare n m) = ((compare e f).then (compare m n)).swap := by
  rw [Ordering.swap_then, ← Std.OrientedOrd.eq_swap, ← Std.OrientedOrd.eq_swap]

theorem unpacked_compare_swap (a b : UnpackedFloat) :
    b.compare a = (a.compare b).map Ordering.swap := by
  rcases a with ⟨_ | _⟩ | _ | ⟨_ | _⟩ | ⟨_ | _, m, e, _⟩ <;>
    rcases b with ⟨_ | _⟩ | _ | ⟨_ | _⟩ | ⟨_ | _, n, f, _⟩ <;> try rfl
  · exact congrArg (fun order => some order.swap) (compare_then_swap m n e f)
  · exact congrArg some (compare_then_swap m n e f)

/-- The three tests of a comparison ask for the one order of the two doubles. -/
theorem compare?_eq_unpacked (x y : Float) :
    compare? x y = x.toModel.unpack.compare y.toModel.unpack := by
  have less (a b : Float) : a < b ↔ a.toModel.unpack.compare b.toModel.unpack = some .lt := by
    change decide (a.toModel < b.toModel) = true ↔ _
    rw [decide_eq_true_iff]
    change (a.toModel.unpack.compare b.toModel.unpack == some .lt) = true ↔ _
    exact beq_iff_eq
  have equal : (x == y) = true ↔ x.toModel.unpack.compare y.toModel.unpack = some .eq := by
    change (x.toModel.unpack.compare y.toModel.unpack == some .eq) = true ↔ _
    exact beq_iff_eq
  have swapped := unpacked_compare_swap x.toModel.unpack y.toModel.unpack
  unfold compare?
  simp only [less, equal, swapped]
  rcases x.toModel.unpack.compare y.toModel.unpack with _ | _ | _ | _ <;> rfl

theorem compare_neg (a b : Int) : compare (-a) (-b) = (compare a b).swap := by
  rcases Int.lt_trichotomy a b with less | same | greater
  · rw [Std.compare_eq_lt.mpr less]
    exact Std.compare_eq_gt.mpr (by omega)
  · rw [same, Std.ReflOrd.compare_self, Std.ReflOrd.compare_self]
    rfl
  · rw [Std.compare_eq_gt.mpr greater]
    exact Std.compare_eq_lt.mpr (by omega)

theorem unpacked_pos (negative : Bool) {mantissa : Nat} (exponent : Int) (positive : 0 < mantissa) :
    (Shape.finite negative mantissa exponent).unpacked =
      .finite (signOf negative) mantissa exponent positive :=
  dif_pos positive

theorem unpacked_zero (negative : Bool) (exponent : Int) :
    (Shape.finite negative 0 exponent).unpacked = .zero (signOf negative) :=
  rfl

/-- The infinities lie outside all finite numbers. -/
theorem compare_infinite_finite (a b : Bool) {n : Nat} {f : Int}
    (shape : (Shape.finite b n f).Canonical) :
    (Shape.infinite a).unpacked.compare (Shape.finite b n f).unpacked =
      some (compare (Shape.infinite a).place (Shape.finite b n f).place) := by
  have bounds : -(2047 * 2 ^ 52) < (Shape.finite b n f).place ∧
      (Shape.finite b n f).place < 2047 * 2 ^ 52 := by
    cases shape with
    | finite _ bound least most _ =>
      cases b <;> simp only [Shape.place, signOf, Sign.apply] <;> omega
  cases a with
  | true =>
    have order : compare (Shape.infinite true).place (Shape.finite b n f).place = .lt :=
      Std.compare_eq_lt.mpr bounds.1
    rw [order]
    rcases Nat.eq_zero_or_pos n with rfl | positive
    · rfl
    · rw [unpacked_pos b f positive]
      rfl
  | false =>
    have order : compare (Shape.infinite false).place (Shape.finite b n f).place = .gt :=
      Std.compare_eq_gt.mpr bounds.2
    rw [order]
    rcases Nat.eq_zero_or_pos n with rfl | positive
    · rfl
    · rw [unpacked_pos b f positive]
      rfl

/-- A zero lies between the numbers of either sign. -/
theorem compare_zero_finite (a b : Bool) {e f : Int} {n : Nat}
    (zero : (Shape.finite a 0 e).Canonical) (shape : (Shape.finite b n f).Canonical) :
    (Shape.finite a 0 e).unpacked.compare (Shape.finite b n f).unpacked =
      some (compare (Shape.finite a 0 e).place (Shape.finite b n f).place) := by
  have middle : (Shape.finite a 0 e).place = 0 := by
    cases zero with
    | finite _ _ _ _ full => cases a <;> simp only [Shape.place, signOf, Sign.apply] <;> omega
  rw [unpacked_zero, middle]
  cases shape with
  | finite _ _ least _ full =>
    rcases Nat.eq_zero_or_pos n with rfl | positive
    · have level : (Shape.finite b 0 f).place = 0 := by
        cases b <;> simp only [Shape.place, signOf, Sign.apply] <;> omega
      rw [unpacked_zero, level, Std.ReflOrd.compare_self]
      rfl
    · rw [unpacked_pos b f positive]
      cases b with
      | false =>
        have above : (0 : Int) < (Shape.finite false n f).place := by
          simp only [Shape.place, signOf, Sign.apply]
          omega
        rw [Std.compare_eq_lt.mpr above]
        rfl
      | true =>
        have below : (Shape.finite true n f).place < (0 : Int) := by
          simp only [Shape.place, signOf, Sign.apply]
          omega
        rw [Std.compare_eq_gt.mpr below]
        rfl

/-- Positive numbers are ordered by exponent and mantissa, negative ones the other way round. -/
theorem compare_finite_finite (a b : Bool) {m n : Nat} {e f : Int} (mPos : 0 < m) (nPos : 0 < n)
    (first : (Shape.finite a m e).Canonical) (second : (Shape.finite b n f).Canonical) :
    (Shape.finite a m e).unpacked.compare (Shape.finite b n f).unpacked =
      some (compare (Shape.finite a m e).place (Shape.finite b n f).place) := by
  cases first with
  | finite _ mBound eLeast _ mFull =>
    cases second with
    | finite _ nBound fLeast _ nFull =>
      have parts := compare_parts mBound nBound mFull nFull eLeast fLeast
      rw [unpacked_pos a e mPos, unpacked_pos b f nPos]
      cases a <;> cases b
      · exact congrArg some parts
      · have order : (Shape.finite true n f).place < (Shape.finite false m e).place := by
          simp only [Shape.place, signOf, Sign.apply]
          omega
        rw [Std.compare_eq_gt.mpr order]
        rfl
      · have order : (Shape.finite true m e).place < (Shape.finite false n f).place := by
          simp only [Shape.place, signOf, Sign.apply]
          omega
        rw [Std.compare_eq_lt.mpr order]
        rfl
      · exact congrArg some ((congrArg Ordering.swap parts).trans (compare_neg _ _).symm)

theorem compare_swapped {s t : Shape}
    (order : s.unpacked.compare t.unpacked = some (compare s.place t.place)) :
    t.unpacked.compare s.unpacked = some (compare t.place s.place) := by
  rw [unpacked_compare_swap, order, Std.OrientedOrd.eq_swap (a := t.place)]
  rfl

theorem unpacked_compare {s t : Shape} (sShape : s.Canonical) (tShape : t.Canonical) :
    s.unpacked.compare t.unpacked = some (compare s.place t.place) := by
  cases s with
  | nan => cases sShape
  | infinite a =>
    cases t with
    | nan => cases tShape
    | infinite b => cases a <;> cases b <;> rfl
    | finite b n f => exact compare_infinite_finite a b tShape
  | finite a m e =>
    cases t with
    | nan => cases tShape
    | infinite b => exact compare_swapped (compare_infinite_finite b a sShape)
    | finite b n f =>
      rcases Nat.eq_zero_or_pos m with rfl | mPos
      · exact compare_zero_finite a b sShape tShape
      rcases Nat.eq_zero_or_pos n with rfl | nPos
      · exact compare_swapped (compare_zero_finite b a tShape sShape)
      · exact compare_finite_finite a b mPos nPos sShape tShape

/-- Doubles that are numbers are ordered by their places. -/
theorem compare?_eq_some {x y : Float} (xNumber : shape x ≠ .nan) (yNumber : shape y ≠ .nan) :
    compare? x y = some (compare (place x) (place y)) := by
  obtain ⟨xShape, xPlace⟩ := shape_canonical xNumber
  obtain ⟨yShape, yPlace⟩ := shape_canonical yNumber
  rw [compare?_eq_unpacked, unpack_toModel, unpack_toModel, unpacked_compare xShape yShape, xPlace,
    yPlace]

theorem compare?_eq_none {x y : Float} (apart : shape x = .nan ∨ shape y = .nan) :
    compare? x y = none := by
  rw [compare?_eq_unpacked, unpack_toModel, unpack_toModel]
  rcases apart with left | right
  · rw [left]
    rfl
  · rw [right]
    cases (shape x).unpacked <;> rfl

theorem eq_of_bits_eq {x y : Float} (same : x.toBits.toNat = y.toBits.toNat) : x = y := by
  have model : x.toModel.toBits = y.toModel.toBits := UInt64.toNat_inj.mp same
  obtain ⟨⟨_, _⟩⟩ := x
  obtain ⟨⟨_, _⟩⟩ := y
  cases model
  rfl

/-- Only the two zeros are different doubles in one place. -/
theorem eq_of_place_eq {x y : Float} (same : place x = place y) (nonzero : place x ≠ 0) :
    x = y := by
  have xBound := x.toBits.toNat_lt
  have yBound := y.toBits.toNat_lt
  refine eq_of_bits_eq ?_
  unfold place signOf at same nonzero
  by_cases xHigh : 2 ^ 63 ≤ x.toBits.toNat <;> by_cases yHigh : 2 ^ 63 ≤ y.toBits.toNat <;>
    simp only [xHigh, yHigh, decide_true, decide_false, Sign.apply] at same nonzero <;> omega

theorem compare?_eq_eq {x y : Float} :
    compare? x y = some .eq ↔ shape x ≠ .nan ∧ shape y ≠ .nan ∧ place x = place y := by
  by_cases xNumber : shape x = .nan
  · simp [compare?_eq_none (Or.inl xNumber), xNumber]
  · by_cases yNumber : shape y = .nan
    · simp [compare?_eq_none (Or.inr yNumber), yNumber]
    · simp [compare?_eq_some xNumber yNumber, xNumber, yNumber]

theorem beq_iff_compare? {x y : Float} : (x == y) = true ↔ compare? x y = some .eq := by
  rw [compare?_eq_unpacked]
  change (x.toModel.unpack.compare y.toModel.unpack == some .eq) = true ↔ _
  exact beq_iff_eq

theorem beq_zero_iff {x : Float} : (x == 0.0) = true ↔ shape x ≠ .nan ∧ place x = 0 := by
  have number : shape 0.0 ≠ .nan := by decide
  have middle : place 0.0 = 0 := by decide
  rw [beq_iff_compare?, compare?_eq_eq, middle]
  exact and_congr_right fun _ => and_iff_right number

/-- Doubles of one value are one double as soon as zero has only one sign. -/
theorem unsigned_zero_congr {x y : Float} (same : compare? x y = some .eq) :
    (if x == 0.0 then 0.0 else x) = if y == 0.0 then 0.0 else y := by
  obtain ⟨xNumber, yNumber, places⟩ := compare?_eq_eq.mp same
  by_cases zero : place x = 0
  · have xZero : (x == 0.0) = true := beq_zero_iff.mpr ⟨xNumber, zero⟩
    have yZero : (y == 0.0) = true := beq_zero_iff.mpr ⟨yNumber, places ▸ zero⟩
    rw [if_pos xZero, if_pos yZero]
  · rw [eq_of_place_eq places zero]

end RecordQuery.Double
