import RecordQuery.Proofs.Decimal.Interval
import RecordQuery.Proofs.Double.Order

namespace RecordQuery.Decimal

theorem toRat_normalize (digits : ℕ) (exponent : ℤ) :
    (normalize digits exponent).toRat = toRat ⟨digits, exponent⟩ := by
  induction digits, exponent using normalize.induct with
  | case1 digits exponent more ih =>
    have tenfold : 10 * (digits / 10) = digits := Nat.mul_div_cancel' (Nat.dvd_of_mod_eq_zero more.2)
    rw [normalize, dif_pos more, ih, toRat, toRat, zpow_add₀ (by norm_num), zpow_one]
    nth_rewrite 2 [← tenfold]
    push_cast
    ring
  | case2 digits exponent done => rw [normalize, dif_neg done]

namespace Interval

variable {m n : ℕ} {e f : ℤ} {r : ℚ}

/-- How far the lower end is from the double, in quarters of the unit of its mantissa. -/
def reach (m : ℕ) (e : ℤ) : ℕ :=
  if m = 2 ^ 52 ∧ -1074 < e then 1 else 2

theorem reach_bounds (m : ℕ) (e : ℤ) : 1 ≤ reach m e ∧ reach m e ≤ 2 := by
  unfold reach
  split <;> decide

theorem toRat_low (m : ℕ) (e : ℤ) :
    (around m e).low.toRat = (4 * m - reach m e : ℕ) * 2 ^ (e - 2) :=
  Quotient.toRat_ofBinary _ _

theorem toRat_value (m : ℕ) (e : ℤ) : (around m e).value.toRat = (4 * m : ℕ) * 2 ^ (e - 2) :=
  Quotient.toRat_ofBinary _ _

theorem toRat_high (m : ℕ) (e : ℤ) : (around m e).high.toRat = (4 * m + 2 : ℕ) * 2 ^ (e - 2) :=
  Quotient.toRat_ofBinary _ _

theorem cast_mul_lt {k l : ℕ} (less : k < l) (e : ℤ) : (k : ℚ) * 2 ^ e < l * 2 ^ e :=
  mul_lt_mul_of_pos_right (Nat.cast_lt.mpr less) (by positivity)

theorem cast_mul_le {k l : ℕ} (le : k ≤ l) (e : ℤ) : (k : ℚ) * 2 ^ e ≤ l * 2 ^ e :=
  mul_le_mul_of_nonneg_right (Nat.cast_le.mpr le) (by positivity)

theorem isProper_around (positive : 0 < m) (e : ℤ) : (around m e).IsProper := by
  obtain ⟨least, -⟩ := reach_bounds m e
  refine ⟨Quotient.denominator_ofBinary _ _, Quotient.denominator_ofBinary _ _,
    Quotient.denominator_ofBinary _ _, ?_, ?_⟩
  · rw [toRat_low, toRat_value]
    exact cast_mul_lt (by omega) _
  · rw [toRat_high, toRat_value]
    exact cast_mul_lt (by omega) _

/-- The grid of the seventeenth digit is finer than the interval. -/
theorem pow_place_lt (positive : 0 < m) (bound : m < 2 ^ 53) (e : ℤ) :
    (10 : ℚ) ^ ((around m e).value.leadingPlace - 16) <
      (around m e).high.toRat - (around m e).low.toRat := by
  have leading := Quotient.pow_leadingPlace_le (Quotient.denominator_ofBinary (4 * m) (e - 2))
    (Nat.mul_pos (Nat.mul_pos (by decide) positive) (Nat.pow_pos Nat.two_pos))
  rw [show Quotient.ofBinary (4 * m) (e - 2) = (around m e).value from rfl, toRat_value] at leading
  have wide : 4 * m < 10 ^ 16 * (2 + reach m e) := by
    unfold reach
    split <;> omega
  have size : 4 * m + 2 = 4 * m - reach m e + (2 + reach m e) := by
    have := (reach_bounds m e).2
    omega
  rw [zpow_sub₀ (by norm_num), toRat_high, toRat_low, size, div_lt_iff₀ (by norm_num)]
  calc (10 : ℚ) ^ (around m e).value.leadingPlace ≤ (4 * m : ℕ) * 2 ^ (e - 2) := leading
    _ < (10 ^ 16 * (2 + reach m e) : ℕ) * 2 ^ (e - 2) := cast_mul_lt wide _
    _ = _ := by
      push_cast
      ring

open Double (Shape)

/-- Whether the first interval ends where the second one begins, or before that. A number at which
they meet belongs to one of them only. -/
def Before (first second : Interval) : Prop :=
  first.high.toRat ≤ second.low.toRat ∧
    (first.closed = true → second.closed = true → first.high.toRat < second.low.toRat)

theorem closed_around (m : ℕ) (e : ℤ) : (around m e).closed = true ↔ m % 2 = 0 :=
  beq_iff_eq

/-- Next to an even mantissa there are odd ones. -/
theorem before_of_mantissa {a : Bool} (first : (Shape.finite a m e).Canonical) (less : m < n) :
    Before (around m e) (around n e) := by
  obtain ⟨-, -, -, -, full⟩ := first
  have far : reach n e = 2 := by
    unfold reach
    split <;> omega
  rw [Before, toRat_high, toRat_low, far, closed_around, closed_around]
  exact ⟨cast_mul_le (by omega) _, fun _ _ => cast_mul_lt (by omega) _⟩

/-- The greatest mantissa is odd, and the least one is full. -/
theorem before_of_exponent {a b : Bool} (first : (Shape.finite a m e).Canonical)
    (second : (Shape.finite b n f).Canonical) (less : e < f) :
    Before (around m e) (around n f) := by
  obtain ⟨-, bound, least, -, -⟩ := first
  obtain ⟨-, -, -, -, full⟩ := second
  have lower : 2 ^ 54 - 1 ≤ 4 * n - reach n f := by
    unfold reach
    split <;> omega
  have steps : (2 : ℚ) * 2 ^ (e - 2) ≤ 2 ^ (f - 2) := by
    rw [← zpow_one_add₀ two_ne_zero]
    exact zpow_le_zpow_right₀ one_le_two (by omega)
  have meets : ((2 ^ 55 - 2 : ℕ) : ℚ) * 2 ^ (e - 2) ≤ (4 * n - reach n f : ℕ) * 2 ^ (f - 2) := by
    calc ((2 ^ 55 - 2 : ℕ) : ℚ) * 2 ^ (e - 2) = (2 ^ 54 - 1 : ℕ) * (2 * 2 ^ (e - 2)) := by
          norm_num
          ring
      _ ≤ (2 ^ 54 - 1 : ℕ) * 2 ^ (f - 2) := mul_le_mul_of_nonneg_left steps (Nat.cast_nonneg _)
      _ ≤ (4 * n - reach n f : ℕ) * 2 ^ (f - 2) := cast_mul_le lower _
  rw [Before, toRat_high, toRat_low, closed_around, closed_around]
  exact ⟨(cast_mul_le (by omega) _).trans meets,
    fun _ _ => (cast_mul_lt (by omega) _).trans_le meets⟩

/-- The interval of a double ends before that of a greater one begins. -/
theorem before_of_less {a b : Bool} (first : (Shape.finite a m e).Canonical)
    (second : (Shape.finite b n f).Canonical) (less : e < f ∨ e = f ∧ m < n) :
    Before (around m e) (around n f) := by
  rcases less with less | ⟨rfl, less⟩
  · exact before_of_exponent first second less
  · exact before_of_mantissa first less

/-- What is read back as a double is below what is read back as a greater one. -/
theorem lt_of_less {a b : Bool} {t : ℚ} (first : (Shape.finite a m e).Canonical)
    (second : (Shape.finite b n f).Canonical) (less : e < f ∨ e = f ∧ m < n)
    (inFirst : (around m e).Contains r) (inSecond : (around n f).Contains t) : r < t := by
  obtain ⟨below, apart⟩ := before_of_less first second less
  rcases inFirst.high with under | ⟨mClosed, top⟩
  · rcases inSecond.low with beyond | ⟨-, bottom⟩ <;> linarith
  · rcases inSecond.low with beyond | ⟨nClosed, bottom⟩
    · linarith
    · have strict := apart mClosed nClosed
      linarith

/-- No number is read back as two different doubles. -/
theorem not_contains_both {a b : Bool} (first : (Shape.finite a m e).Canonical)
    (second : (Shape.finite b n f).Canonical) (less : e < f ∨ e = f ∧ m < n)
    (inFirst : (around m e).Contains r) : ¬ (around n f).Contains r :=
  fun inSecond => lt_irrefl r (lt_of_less first second less inFirst inSecond)

theorem toRat_mantissa (m : ℕ) (e : ℤ) : (around m e).value.toRat = m * 2 ^ e := by
  rw [toRat_value, zpow_sub₀ two_ne_zero]
  push_cast
  ring

theorem contains_mantissa (positive : 0 < m) (e : ℤ) : (around m e).Contains (m * 2 ^ e) :=
  toRat_mantissa m e ▸ (isProper_around positive e).contains_value

/-- The ends of an interval, counted in the unit of its mantissa. -/
theorem contains_scaled {z : ℚ} (positive : 0 < m) (inside : (around m e).Contains (z * 2 ^ e)) :
    ((m : ℚ) - reach m e / 4 < z ∨ m % 2 = 0 ∧ (m : ℚ) - reach m e / 4 = z) ∧
      (z < m + 1 / 2 ∨ m % 2 = 0 ∧ z = m + 1 / 2) := by
  have unit : (0 : ℚ) < 2 ^ e := by positivity
  have quarter : (2 : ℚ) ^ (e - 2) = 2 ^ e / 4 := by
    rw [zpow_sub₀ two_ne_zero]
    norm_num
  have fits : reach m e ≤ 4 * m := by
    have most := (reach_bounds m e).2
    omega
  have low : (around m e).low.toRat = (m - reach m e / 4) * 2 ^ e := by
    rw [toRat_low, quarter, Nat.cast_sub fits]
    push_cast
    ring
  have high : (around m e).high.toRat = (m + 1 / 2) * 2 ^ e := by
    rw [toRat_high, quarter]
    push_cast
    ring
  obtain ⟨above, below⟩ := inside
  rw [low, closed_around, mul_lt_mul_iff_left₀ unit, mul_left_inj' unit.ne'] at above
  rw [high, closed_around, mul_lt_mul_iff_left₀ unit, mul_left_inj' unit.ne'] at below
  exact ⟨above, below⟩

end Interval

/-- What is written with the fewest digits is read back as the double, and seventeen digits are
enough for that. -/
theorem contains_shortest {m : ℕ} (positive : 0 < m) (bound : m < 2 ^ 53) (e : ℤ) (tie : Tie) :
    (Interval.around m e).Contains (shortest tie m e).toRat := by
  have proper := Interval.isProper_around positive e
  rw [shortest, if_neg positive.ne']
  dsimp only
  split
  · rename_i point found
    obtain ⟨n, -, taken⟩ := List.exists_of_findSome?_eq_some found
    rw [toRat_normalize]
    exact proper.contains_pointAt? taken
  · rename_i absent
    have last := List.findSome?_eq_none_iff.mp absent 16 (List.mem_range.mpr (by decide))
    have there := proper.pointAt?_isSome tie (Interval.pow_place_lt positive bound e)
    rw [show ((16 : ℕ) : ℤ) = 16 from rfl] at last
    rw [last] at there
    cases there

open Double (Shape)

theorem toRat_shortest_zero (e : ℤ) (tie : Tie) : (shortest tie 0 e).toRat = 0 := by
  rw [shortest, if_pos rfl, toRat, Nat.cast_zero, zero_mul]

theorem toRat_shortest_pos {m : ℕ} (positive : 0 < m) (bound : m < 2 ^ 53) (e : ℤ) (tie : Tie) :
    0 < (shortest tie m e).toRat := by
  have low : 0 < (Interval.around m e).low.toRat := by
    have most := (Interval.reach_bounds m e).2
    rw [Interval.toRat_low]
    exact mul_pos (Nat.cast_pos.mpr (by omega)) (by positivity)
  rcases (contains_shortest positive bound e tie).low with less | ⟨-, same⟩
  · exact low.trans less
  · exact same ▸ low

/-- Different doubles have different shortest decimals. -/
theorem shortest_injective {a b : Bool} {m n : ℕ} {e f : ℤ} {tie : Tie}
    (first : (Shape.finite a m e).Canonical) (second : (Shape.finite b n f).Canonical)
    (same : (shortest tie m e).toRat = (shortest tie n f).toRat) : m = n ∧ e = f := by
  have mBound := first.mantissa_lt
  have nBound := second.mantissa_lt
  rcases Nat.eq_zero_or_pos m with rfl | mPos
  · rcases Nat.eq_zero_or_pos n with rfl | nPos
    · cases first
      cases second
      omega
    · have positive := toRat_shortest_pos nPos nBound f tie
      rw [← same, toRat_shortest_zero] at positive
      exact absurd positive (lt_irrefl 0)
  · rcases Nat.eq_zero_or_pos n with rfl | nPos
    · have positive := toRat_shortest_pos mPos mBound e tie
      rw [same, toRat_shortest_zero] at positive
      exact absurd positive (lt_irrefl 0)
    · have inFirst := contains_shortest mPos mBound e tie
      have inSecond := contains_shortest nPos nBound f tie
      rw [← same] at inSecond
      by_contra different
      have order : (e < f ∨ e = f ∧ m < n) ∨ f < e ∨ f = e ∧ n < m := by omega
      rcases order with less | less
      · exact Interval.not_contains_both first second less inFirst inSecond
      · exact Interval.not_contains_both second first less inSecond inFirst

end RecordQuery.Decimal
