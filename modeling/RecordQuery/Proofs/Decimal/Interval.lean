import Mathlib.Algebra.Order.Field.Power
import Mathlib.Tactic.Linarith
import Mathlib.Tactic.Positivity
import Mathlib.Tactic.Ring
import RecordQuery.Decimal.Shortest

namespace RecordQuery.Decimal

/-- The number that a decimal is. -/
def toRat (d : Decimal) : ℚ :=
  d.digits * 10 ^ d.exponent

/-- The number that a quotient is. -/
def Quotient.toRat (q : Quotient) : ℚ :=
  q.numerator / q.denominator

/-- A power is a quotient of two natural ones. -/
theorem zpow_mul_toNat {b : ℚ} (nonzero : b ≠ 0) (e : ℤ) :
    b ^ e * b ^ (-e).toNat = b ^ e.toNat := by
  rw [← zpow_natCast, ← zpow_natCast, ← zpow_add₀ nonzero]
  congr 1
  omega

namespace Quotient

theorem toRat_ofBinary (n : ℕ) (e : ℤ) : (ofBinary n e).toRat = n * 2 ^ e := by
  have nonzero : ((2 : ℚ) ^ (-e).toNat) ≠ 0 := by positivity
  rw [toRat, ofBinary]
  simp only [Nat.pow_eq, Nat.cast_mul, Nat.cast_pow, Nat.cast_ofNat]
  rw [div_eq_iff nonzero, mul_assoc, zpow_mul_toNat two_ne_zero]

theorem denominator_ofBinary (n : ℕ) (e : ℤ) : 0 < (ofBinary n e).denominator :=
  Nat.pow_pos Nat.two_pos

variable {q : Quotient}

/-- Both sides of a comparison are brought to whole numbers by one factor. -/
theorem compareAt_eq (positive : 0 < q.denominator) (count : ℕ) (place : ℤ) :
    q.compareAt count place = compare ((count : ℚ) * 10 ^ place) q.toRat := by
  have divisor : (0 : ℚ) < q.denominator := Nat.cast_pos.mpr positive
  have factor : (0 : ℚ) < q.denominator * 10 ^ (-place).toNat := by positivity
  have left : ((count * (q.denominator * Nat.pow 10 place.toNat) : ℕ) : ℚ) =
      count * 10 ^ place * (q.denominator * 10 ^ (-place).toNat) := by
    rw [Nat.pow_eq]
    push_cast
    rw [← zpow_mul_toNat (by norm_num) place]
    ring
  have right : ((q.numerator * Nat.pow 10 (-place).toNat : ℕ) : ℚ) =
      q.toRat * (q.denominator * 10 ^ (-place).toNat) := by
    rw [Nat.pow_eq, toRat, ← mul_assoc, div_mul_cancel₀ _ divisor.ne']
    push_cast
    rfl
  rw [compareAt]
  rcases lt_trichotomy ((count : ℚ) * 10 ^ place) q.toRat with less | same | greater
  · rw [compare_lt_iff_lt.mpr less, compare_lt_iff_lt, ← Nat.cast_lt (α := ℚ), left, right]
    exact mul_lt_mul_of_pos_right less factor
  · rw [compare_eq_iff_eq.mpr same, compare_eq_iff_eq, ← Nat.cast_inj (R := ℚ), left, right, same]
  · rw [compare_gt_iff_gt.mpr greater, compare_gt_iff_gt, ← Nat.cast_lt (α := ℚ), left, right]
    exact mul_lt_mul_of_pos_right greater factor

/-- A quotient lies from its grid point up to the next one. -/
theorem floorAt_bounds (positive : 0 < q.denominator) (place : ℤ) :
    (q.floorAt place : ℚ) * 10 ^ place ≤ q.toRat ∧
      q.toRat < ((q.floorAt place + 1 : ℕ) : ℚ) * 10 ^ place := by
  have divisor : 0 < q.denominator * Nat.pow 10 place.toNat :=
    Nat.mul_pos positive (Nat.pow_pos (by decide))
  have below : q.compareAt (q.floorAt place) place ≠ .gt := by
    rw [compareAt, Ne, compare_gt_iff_gt]
    exact Nat.not_lt.mpr (Nat.div_mul_le_self _ _)
  have above : q.compareAt (q.floorAt place + 1) place = .gt := by
    rw [compareAt, compare_gt_iff_gt]
    exact Nat.lt_mul_of_div_lt (Nat.lt_succ_self _) divisor
  rw [compareAt_eq positive] at below above
  exact ⟨not_lt.mp (mt compare_gt_iff_gt.mpr below), compare_gt_iff_gt.mp above⟩

end Quotient

theorem digitCount_pos (n : ℕ) : 0 < digitCount n := by
  rw [digitCount]
  split <;> omega

theorem digitCount_bounds {n : ℕ} (positive : 0 < n) :
    10 ^ (digitCount n - 1) ≤ n ∧ n < 10 ^ digitCount n := by
  induction n using digitCount.induct with
  | case1 n small =>
    rw [digitCount, if_pos small]
    omega
  | case2 n large ih =>
    obtain ⟨below, above⟩ := ih (by omega)
    have some_digit := digitCount_pos (n / 10)
    rw [digitCount, if_neg large, Nat.add_sub_cancel, Nat.pow_succ]
    obtain ⟨k, count⟩ := Nat.exists_eq_succ_of_ne_zero some_digit.ne'
    rw [count, Nat.succ_sub_one] at below
    rw [count, Nat.pow_succ] at above ⊢
    omega

/-- A quotient is not below the power of ten at its leading place. -/
theorem Quotient.pow_leadingPlace_le {q : Quotient} (divisor : 0 < q.denominator)
    (positive : 0 < q.numerator) : (10 : ℚ) ^ q.leadingPlace ≤ q.toRat := by
  have denominator : (0 : ℚ) < q.denominator := Nat.cast_pos.mpr divisor
  rw [toRat, le_div_iff₀ denominator, leadingPlace]
  split
  · rename_i whole
    obtain ⟨below, -⟩ := digitCount_bounds (Nat.div_pos whole divisor)
    have some_digit := digitCount_pos (q.numerator / q.denominator)
    have place : (digitCount (q.numerator / q.denominator) : ℤ) - 1 =
        (digitCount (q.numerator / q.denominator) - 1 : ℕ) := by omega
    rw [place, zpow_natCast]
    exact_mod_cast (Nat.le_div_iff_mul_le divisor).mp below
  · rename_i fraction
    have less : q.numerator ≤ q.denominator := (Nat.lt_of_not_le fraction).le
    obtain ⟨-, above⟩ := digitCount_bounds (Nat.div_pos less positive)
    have some_digit := digitCount_pos (q.denominator / q.numerator)
    dsimp only
    split
    · rename_i exact
      have place : 1 - (digitCount (q.denominator / q.numerator) : ℤ) =
          -(digitCount (q.denominator / q.numerator) - 1 : ℕ) := by omega
      rw [place, zpow_neg, zpow_natCast, inv_mul_le_iff₀ (by positivity), mul_comm]
      exact_mod_cast exact.le
    · rw [zpow_neg, zpow_natCast, inv_mul_le_iff₀ (by positivity), mul_comm]
      exact_mod_cast ((Nat.div_lt_iff_lt_mul positive).mp above).le.trans (Nat.mul_comm _ _).le

/-- The numbers that an interval holds. -/
structure Interval.Contains (interval : Interval) (r : ℚ) : Prop where
  low : interval.low.toRat < r ∨ interval.closed = true ∧ interval.low.toRat = r
  high : r < interval.high.toRat ∨ interval.closed = true ∧ r = interval.high.toRat

/-- An interval of quotients, with the value between its two ends. -/
structure Interval.IsProper (interval : Interval) : Prop where
  low_pos : 0 < interval.low.denominator
  value_pos : 0 < interval.value.denominator
  high_pos : 0 < interval.high.denominator
  low_lt : interval.low.toRat < interval.value.toRat
  lt_high : interval.value.toRat < interval.high.toRat

namespace Interval.IsProper

variable {interval : Interval}

theorem contains_value (proper : interval.IsProper) : interval.Contains interval.value.toRat :=
  ⟨Or.inl proper.low_lt, Or.inl proper.lt_high⟩

theorem admits_iff (proper : interval.IsProper) (count : ℕ) (place : ℤ) :
    interval.admits count place = true ↔ interval.Contains (toRat ⟨count, place⟩) := by
  have low := Quotient.compareAt_eq proper.low_pos count place
  have high := Quotient.compareAt_eq proper.high_pos count place
  simp only [admits, low, high, Bool.and_eq_true, Bool.or_eq_true, beq_iff_eq, compare_gt_iff_gt,
    compare_lt_iff_lt, compare_eq_iff_eq]
  constructor
  · rintro ⟨above, below⟩
    exact ⟨above.imp_right fun ⟨closed, same⟩ => ⟨closed, same.symm⟩, below⟩
  · rintro ⟨above, below⟩
    exact ⟨above.imp_right fun ⟨closed, same⟩ => ⟨closed, same.symm⟩, below⟩

/-- A point that is taken is the double itself, or one of its neighbours that is read back as it. -/
theorem contains_pointAt? (proper : interval.IsProper) {tie : Tie} {place : ℤ} {d : Decimal}
    (taken : interval.pointAt? tie place = some d) : interval.Contains d.toRat := by
  have admitted {count : ℕ} (admits : interval.admits count place = true) :
      interval.Contains (toRat ⟨count, place⟩) := (proper.admits_iff count place).mp admits
  unfold pointAt? at taken
  dsimp only at taken
  split at taken
  · rename_i exact
    rw [beq_iff_eq, Quotient.compareAt_eq proper.value_pos, compare_eq_iff_eq] at exact
    cases taken
    rw [toRat, exact]
    exact proper.contains_value
  · split at taken
    · rename_i down up
      split at taken
      · cases taken
        exact admitted down
      · cases taken
        exact admitted up
      · cases taken
        exact admitted up
      · cases taken
        split
        · exact admitted down
        · exact admitted up
    · rename_i down _
      cases taken
      exact admitted down
    · rename_i _ up
      cases taken
      exact admitted up
    · cases taken

/-- A grid that is finer than the interval has a point in it. -/
theorem pointAt?_isSome (proper : interval.IsProper) (tie : Tie) {place : ℤ}
    (fine : (10 : ℚ) ^ place < interval.high.toRat - interval.low.toRat) :
    (interval.pointAt? tie place).isSome = true := by
  obtain ⟨below, above⟩ := Quotient.floorAt_bounds proper.value_pos place
  unfold pointAt?
  dsimp only
  split
  · rfl
  · split
    · split <;> rfl
    · rfl
    · rfl
    · rename_i down up
      -- both neighbours lie outside, so that the interval fits between them
      have low : ¬ interval.low.toRat < interval.value.floorAt place * 10 ^ place := fun inside =>
        absurd ((proper.admits_iff _ place).mpr
          ⟨Or.inl inside, Or.inl (below.trans_lt proper.lt_high)⟩) (Bool.eq_false_iff.mp down)
      have high : ¬ ((interval.value.floorAt place + 1 : ℕ) : ℚ) * 10 ^ place <
          interval.high.toRat := fun inside =>
        absurd ((proper.admits_iff _ place).mpr
          ⟨Or.inl (proper.low_lt.trans above), Or.inl inside⟩) (Bool.eq_false_iff.mp up)
      push_cast at high
      linarith

end Interval.IsProper

end RecordQuery.Decimal
