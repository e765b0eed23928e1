import Mathlib.Algebra.Order.Floor.Ring
import Mathlib.Data.Rat.Floor
import RecordQuery.Proofs.Double.Value

namespace RecordQuery.Double

/-- A finite double that is an integer. -/
structure IsInteger (y : Float) (n : ℤ) : Prop where
  finite : isFinite y = true
  value : toRat y = n

section

variable {x : Float} {negative : Bool} {m : ℕ} {e : ℤ}

theorem toRat_of_shape (finite : shape x = .finite negative m e) :
    toRat x = if negative then -((m : ℚ) * 2 ^ e) else m * 2 ^ e := by
  rw [toRat, finite, Shape.toRat]

theorem isFinite_of_shape (finite : shape x = .finite negative m e) : isFinite x = true := by
  rw [isFinite, finite]

theorem isInteger_of_shape (finite : shape x = .finite negative m e) {n : ℕ}
    (whole : (m : ℚ) * 2 ^ e = n) : IsInteger x (if negative then -(n : ℤ) else n) := by
  refine ⟨isFinite_of_shape finite, ?_⟩
  rw [toRat_of_shape finite, whole]
  cases negative <;> simp

/-- With a negative exponent the mantissa has a whole part and a rest that is cut off. -/
theorem magnitude_bounds (m : ℕ) (below : e < 0) :
    ((m / 2 ^ (-e).toNat : ℕ) : ℚ) ≤ m * 2 ^ e ∧
      (m : ℚ) * 2 ^ e < (m / 2 ^ (-e).toNat : ℕ) + 1 ∧
      ((m : ℚ) * 2 ^ e = (m / 2 ^ (-e).toNat : ℕ) ↔ m % 2 ^ (-e).toNat = 0) := by
  obtain ⟨k, rfl⟩ : ∃ k : ℕ, e = -k := ⟨e.natAbs, by omega⟩
  rw [neg_neg, Int.toNat_natCast, zpow_neg, zpow_natCast, ← div_eq_mul_inv]
  have unit : (0 : ℚ) < 2 ^ k := by positivity
  have parts : (2 : ℚ) ^ k * (m / 2 ^ k : ℕ) + (m % 2 ^ k : ℕ) = m := by
    exact_mod_cast Nat.div_add_mod m (2 ^ k)
  have rest : ((m % 2 ^ k : ℕ) : ℚ) < 2 ^ k := by
    exact_mod_cast Nat.mod_lt m (Nat.two_pow_pos k)
  have cut : (0 : ℚ) ≤ (m % 2 ^ k : ℕ) := Nat.cast_nonneg _
  refine ⟨?_, ?_, ?_⟩
  · rw [le_div_iff₀ unit]
    linarith
  · rw [div_lt_iff₀ unit]
    linarith
  · rw [div_eq_iff unit.ne', ← Nat.cast_eq_zero (R := ℚ)]
    constructor <;> intro <;> linarith

theorem isInteger_of_exponent (finite : shape x = .finite negative m e) (whole : 0 ≤ e) :
    ∃ n, IsInteger x n := by
  obtain ⟨k, rfl⟩ := Int.eq_ofNat_of_zero_le whole
  exact ⟨_, isInteger_of_shape finite (n := m * 2 ^ k) (by push_cast; rw [zpow_natCast])⟩

theorem roundBy_of_exponent (raise : Bool → ℕ → ℕ → Bool)
    (finite : shape x = .finite negative m e) (whole : 0 ≤ e) : roundBy raise x = x := by
  rw [roundBy, finite]
  exact if_pos whole

section

variable {raise : Bool → ℕ → ℕ → Bool} (finite : shape x = .finite negative m e) (below : e < 0)

include finite below

/-- Rounding a double with places behind the point gives its whole part, or the next one. -/
theorem isInteger_roundBy {n : ℕ}
    (chosen : (if raise negative (m % 2 ^ (-e).toNat) (2 ^ (-e).toNat) = true then
      m / 2 ^ (-e).toNat + 1 else m / 2 ^ (-e).toNat) = n) :
    IsInteger (roundBy raise x) (if negative then -(n : ℤ) else n) := by
  have bound := (canonical_of_finite finite).mantissa_lt
  have half : m / 2 ^ (-e).toNat < 2 ^ 52 := by
    have unit : 2 ^ 1 ≤ 2 ^ (-e).toNat := Nat.pow_le_pow_right Nat.two_pos (by omega)
    exact Nat.div_lt_of_lt_mul (by omega)
  have small : n < 2 ^ 53 := by
    rw [← chosen]
    split <;> omega
  obtain ⟨k, f, parts, value⟩ := shape_ofParts negative small (e := 0) (by decide) (by decide)
  rw [zpow_zero, mul_one] at value
  rw [roundBy, finite]
  simp only [Nat.pow_eq]
  rw [if_neg (not_le.mpr below), chosen]
  exact isInteger_of_shape parts value

/-- A rounding that never raises a number of this sign goes toward zero. -/
theorem exists_roundBy_toward (kept : ∀ cut unit, raise negative cut unit = false) :
    ∃ n : ℕ, IsInteger (roundBy raise x) (if negative then -(n : ℤ) else n) ∧
      (n : ℚ) ≤ m * 2 ^ e ∧ (m : ℚ) * 2 ^ e < n + 1 := by
  obtain ⟨low, high, -⟩ := magnitude_bounds m below
  refine ⟨_, isInteger_roundBy finite below ?_, low, high⟩
  rw [kept, if_neg Bool.false_ne_true]

/-- A rounding that raises a number of this sign whenever something is cut off goes away from
zero. -/
theorem exists_roundBy_away (raised : ∀ cut unit, raise negative cut unit = (cut != 0)) :
    ∃ n : ℕ, IsInteger (roundBy raise x) (if negative then -(n : ℤ) else n) ∧
      (n : ℚ) - 1 < m * 2 ^ e ∧ (m : ℚ) * 2 ^ e ≤ n := by
  obtain ⟨low, high, exactly⟩ := magnitude_bounds m below
  refine ⟨_, isInteger_roundBy finite below rfl, ?_⟩
  rw [raised]
  rcases eq_or_ne (m % 2 ^ (-e).toNat) 0 with whole | cut
  · rw [if_neg (by simp [whole]), exactly.mpr whole]
    exact ⟨sub_one_lt _, le_rfl⟩
  · have less := lt_of_le_of_ne low fun same => cut (exactly.mp same.symm)
    rw [if_pos (by simp [cut]), Nat.cast_succ, add_sub_cancel_right]
    exact ⟨less, high.le⟩

end

end

/-- The floor of a finite double is the greatest integer that is not above it. -/
theorem isInteger_floor {x : Float} (finite : isFinite x = true) :
    IsInteger (floor x) ⌊toRat x⌋ := by
  obtain ⟨negative, m, e, parts⟩ := exists_shape finite
  rcases Int.lt_or_le e 0 with below | whole
  · suffices found : ∃ n : ℤ, IsInteger (floor x) n ∧ n ≤ toRat x ∧ toRat x < n + 1 by
      obtain ⟨n, integer, bounds⟩ := found
      rwa [Int.floor_eq_iff.mpr bounds]
    rw [toRat_of_shape parts]
    cases negative with
    | false =>
      obtain ⟨n, integer, bounds⟩ : ∃ n : ℕ, IsInteger (floor x) n ∧ _ :=
        exists_roundBy_toward parts below fun _ _ => rfl
      exact ⟨n, integer, bounds⟩
    | true =>
      obtain ⟨n, integer, low, high⟩ : ∃ n : ℕ, IsInteger (floor x) (-n) ∧ _ ∧ _ :=
        exists_roundBy_away parts below fun _ _ => rfl
      refine ⟨-n, integer, ?_⟩
      rw [if_pos rfl, Int.cast_neg, Int.cast_natCast]
      constructor <;> linarith
  · obtain ⟨n, integer⟩ := isInteger_of_exponent parts whole
    rw [floor, roundBy_of_exponent _ parts whole, integer.value, Int.floor_intCast]
    exact integer

/-- The ceiling of a finite double is the least integer that is not below it. -/
theorem isInteger_ceil {x : Float} (finite : isFinite x = true) :
    IsInteger (ceil x) ⌈toRat x⌉ := by
  obtain ⟨negative, m, e, parts⟩ := exists_shape finite
  rcases Int.lt_or_le e 0 with below | whole
  · suffices found : ∃ n : ℤ, IsInteger (ceil x) n ∧ n - 1 < toRat x ∧ toRat x ≤ n by
      obtain ⟨n, integer, bounds⟩ := found
      rwa [Int.ceil_eq_iff.mpr bounds]
    rw [toRat_of_shape parts]
    cases negative with
    | false =>
      obtain ⟨n, integer, bounds⟩ : ∃ n : ℕ, IsInteger (ceil x) n ∧ _ :=
        exists_roundBy_away parts below fun _ _ => rfl
      exact ⟨n, integer, bounds⟩
    | true =>
      obtain ⟨n, integer, low, high⟩ : ∃ n : ℕ, IsInteger (ceil x) (-n) ∧ _ ∧ _ :=
        exists_roundBy_toward parts below fun _ _ => rfl
      refine ⟨-n, integer, ?_⟩
      rw [if_pos rfl, Int.cast_neg, Int.cast_natCast]
      constructor <;> linarith
  · obtain ⟨n, integer⟩ := isInteger_of_exponent parts whole
    rw [ceil, roundBy_of_exponent _ parts whole, integer.value, Int.ceil_intCast]
    exact integer

namespace IsInteger

variable {y : Float} {n : ℤ} (integer : IsInteger y n)

include integer

/-- Cutting off the places behind the point leaves an integer as it is. -/
theorem truncate?_eq : truncate? y = some n := by
  obtain ⟨negative, m, e, parts⟩ := exists_shape integer.finite
  have value := integer.value
  rw [toRat_of_shape parts] at value
  have size : (m : ℚ) * 2 ^ e = n.natAbs := by
    have nonneg : (0 : ℚ) ≤ m * 2 ^ e := by positivity
    rw [Nat.cast_natAbs, Int.cast_abs, ← value]
    split
    · rw [abs_neg, abs_of_nonneg nonneg]
    · rw [abs_of_nonneg nonneg]
  have magnitude : (if 0 ≤ e then m * 2 ^ e.toNat else m / 2 ^ (-e).toNat) = n.natAbs := by
    split
    · rename_i whole
      obtain ⟨k, rfl⟩ := Int.eq_ofNat_of_zero_le whole
      rw [zpow_natCast] at size
      exact_mod_cast size
    · rename_i below
      obtain ⟨low, high, -⟩ := magnitude_bounds m (not_le.mp below)
      rw [size] at low high
      have least : m / 2 ^ (-e).toNat ≤ n.natAbs := by exact_mod_cast low
      have most : n.natAbs < m / 2 ^ (-e).toNat + 1 := by exact_mod_cast high
      omega
  have same := (isInteger_of_shape parts size).value.symm.trans integer.value
  rw [truncate?, parts]
  simp only [Nat.pow_eq]
  rw [magnitude, Int.cast_inj.mp same]

/-- An integer in the range is kept, and the one next to the range becomes the greatest in it. -/
theorem saturate_eq : (-2 ^ 63 ≤ n → n < 2 ^ 63 → (saturate y).toInt = n) ∧
    (n = 2 ^ 63 → saturate y = Int64.maxValue) := by
  obtain ⟨negative, m, e, parts⟩ := exists_shape integer.finite
  have low : Int64.minValue.toInt = -2 ^ 63 := rfl
  have high : Int64.maxValue.toInt = 2 ^ 63 - 1 := rfl
  rw [saturate, parts]
  simp only [integer.truncate?_eq, low, high]
  constructor
  · intro least most
    rw [if_neg (by omega), if_neg (by omega)]
    exact Int64.toInt_ofInt_of_le (by omega) (by omega)
  · rintro rfl
    rfl

end IsInteger

end RecordQuery.Double
