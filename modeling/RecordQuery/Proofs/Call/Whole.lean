import RecordQuery.Call.Scalar
import RecordQuery.Proofs.Double.Integral

namespace RecordQuery.Scalar

open Double (IsInteger isFinite toRat)

/-- What a function gives for a double whose value it rounds to the integer `n`: the integer when it
is one of 64 bits, and otherwise the double of it. Two to the 63 is no integer of 64 bits, but it is
the double nearest to the greatest one, and that one is given for it. -/
structure GivesWhole (n : ℤ) (given : Except QueryError Value) : Prop where
  inside : -2 ^ 63 ≤ n → n < 2 ^ 63 → ∃ i : Int64, given = .ok (.int i) ∧ i.toInt = n
  limit : n = 2 ^ 63 → given = .ok (.int Int64.maxValue)
  beyond : n < -2 ^ 63 ∨ 2 ^ 63 < n → ∃ y, given = .ok (.float y) ∧ IsInteger y n

/-- The ends of the integers go over to the doubles of two to the 63 with either sign. -/
theorem isInteger_ends :
    IsInteger (Float.ofInt Int64.minValue.toInt) (-2 ^ 63) ∧
      IsInteger (Float.ofInt Int64.maxValue.toInt) (2 ^ 63) := by
  have least : Double.shape (Float.ofInt Int64.minValue.toInt) = .finite true (2 ^ 52) 11 := by
    decide +kernel
  have greatest : Double.shape (Float.ofInt Int64.maxValue.toInt) = .finite false (2 ^ 52) 11 := by
    decide +kernel
  exact ⟨Double.isInteger_of_shape least (n := 2 ^ 63) (by norm_num),
    Double.isInteger_of_shape greatest (n := 2 ^ 63) (by norm_num)⟩

/-- The test for the range lets two to the 63 pass. -/
theorem wholeValue_eq {y : Float} {n : ℤ} (integer : IsInteger y n) :
    wholeValue y =
      if -2 ^ 63 ≤ n ∧ n ≤ 2 ^ 63 then .int (Double.saturate y) else .float y := by
  obtain ⟨least, greatest⟩ := isInteger_ends
  have low : Float.ofInt Int64.minValue.toInt ≤ y ↔ -2 ^ 63 ≤ n := by
    rw [Double.le_iff least.finite integer.finite, least.value, integer.value, Int.cast_le]
  have high : y ≤ Float.ofInt Int64.maxValue.toInt ↔ n ≤ 2 ^ 63 := by
    rw [Double.le_iff integer.finite greatest.finite, greatest.value, integer.value, Int.cast_le]
  rw [wholeValue, integer.finite]
  simp only [Bool.true_and, Bool.and_eq_true, decide_eq_true_eq, low, high]

theorem givesWhole_wholeValue {y : Float} {n : ℤ} (integer : IsInteger y n) :
    GivesWhole n (.ok (wholeValue y)) := by
  obtain ⟨kept, greatest⟩ := integer.saturate_eq
  rw [wholeValue_eq integer]
  refine ⟨fun low high => ?_, fun same => ?_, fun outside => ?_⟩
  · rw [if_pos ⟨low, high.le⟩]
    exact ⟨_, rfl, kept low high⟩
  · rw [if_pos (by omega), greatest same]
  · rw [if_neg (by omega)]
    exact ⟨y, rfl, integer⟩

variable (ambient : Ambient) (place : String)

theorem toWhole_of_float {kind : FunctionKind} (rounding : Float → Float) {v : Value} {x : Float}
    (read : v.number? = some (.float x)) :
    toWhole kind rounding v = .ok (wholeValue (rounding x)) := by
  have some_value : v.isNull = false := by
    cases v with
    | null => cases read
    | _ => rfl
  rw [toWhole, number, some_value, read]
  rfl

/-- Rounding down or up a finite double, whether it is given as one or written in a text, gives
exactly the integer next to its value as long as that integer is not two to the 63. -/
theorem compute_floor_ceil {v : Value} {x : Float} (read : v.number? = some (.float x))
    (finite : isFinite x = true) :
    GivesWhole ⌊toRat x⌋ (compute ambient place .floor [v]) ∧
      GivesWhole ⌈toRat x⌉ (compute ambient place .ceil [v]) := by
  have down : compute ambient place .floor [v] = .ok (wholeValue (Double.floor x)) :=
    toWhole_of_float Double.floor read
  have up : compute ambient place .ceil [v] = .ok (wholeValue (Double.ceil x)) :=
    toWhole_of_float Double.ceil read
  rw [down, up]
  exact ⟨givesWhole_wholeValue (Double.isInteger_floor finite),
    givesWhole_wholeValue (Double.isInteger_ceil finite)⟩

/-- A text below the range of the integers denotes the double of the least one, and that integer is
given for it. -/
theorem compute_floor_ceil_least :
    (Value.text "-9223372036854775809").number? =
        some (.float (Float.ofInt Int64.minValue.toInt)) ∧
      isFinite (Float.ofInt Int64.minValue.toInt) = true ∧
      ∃ i : Int64, compute ⟨⟨0, 0, 0⟩, ""⟩ "" .floor [.text "-9223372036854775809"] =
        .ok (.int i) ∧ i.toInt = -2 ^ 63 := by
  have read : (Value.text "-9223372036854775809").number? =
      some (.float (Float.ofInt Int64.minValue.toInt)) := by decide +kernel
  obtain ⟨finite, value⟩ := isInteger_ends.1
  obtain ⟨down, -⟩ := compute_floor_ceil ⟨⟨0, 0, 0⟩, ""⟩ "" read finite
  rw [value, Int.floor_intCast] at down
  exact ⟨read, finite, down.inside le_rfl (by decide)⟩

/-- For two to the 63 an integer is given that is one less. -/
theorem not_compute_floor_ceil :
    ¬ ∀ (ambient : Ambient) (place : String) (v : Value) (x : Float),
      v.number? = some (.float x) → isFinite x = true → ∀ i : Int64,
        compute ambient place .floor [v] = .ok (.int i) → i.toInt = ⌊toRat x⌋ := by
  intro exactly
  obtain ⟨finite, value⟩ := isInteger_ends.2
  have given : compute ⟨⟨0, 0, 0⟩, ""⟩ "" .floor [.float (Float.ofInt Int64.maxValue.toInt)] =
      .ok (.int Int64.maxValue) := by
    refine (toWhole_of_float Double.floor rfl).trans ?_
    refine (givesWhole_wholeValue (Double.isInteger_floor finite)).limit ?_
    rw [value, Int.floor_intCast]
  have same := exactly _ _ _ _ rfl finite _ given
  rw [value, Int.floor_intCast] at same
  exact absurd same (by decide)

end RecordQuery.Scalar
