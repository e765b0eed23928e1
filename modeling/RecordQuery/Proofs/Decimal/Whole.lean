import RecordQuery.Proofs.Decimal.Layout

namespace RecordQuery.Decimal

theorem length_digitChars (n : ℕ) : (digitChars n).length = digitCount n := by
  induction n using digitChars.induct with
  | case1 n small => rw [digitChars_of_lt small, digitCount, if_pos small, List.length_singleton]
  | case2 n large ih =>
    rw [digitChars_of_ge (Nat.not_lt.mp large), digitCount, if_neg large, List.length_append, ih,
      List.length_singleton]

/-- The exponent of the leading digit tells between which powers of ten a decimal lies. -/
theorem leadingExponent_lt_iff {d : Decimal} (positive : 0 < d.digits) (k : ℤ) :
    d.leadingExponent < k ↔ d.toRat < 10 ^ k := by
  obtain ⟨least, most⟩ := digitCount_bounds positive
  have some_digit := digitCount_pos d.digits
  have ten : (0 : ℚ) < 10 ^ d.exponent := by positivity
  have leading : d.leadingExponent = (digitCount d.digits : ℤ) - 1 + d.exponent := by
    rw [leadingExponent, length_digitChars]
  have low : (10 : ℚ) ^ d.leadingExponent ≤ d.toRat := by
    calc (10 : ℚ) ^ d.leadingExponent
        = ((10 ^ (digitCount d.digits - 1) : ℕ) : ℚ) * 10 ^ d.exponent := by
          rw [leading, zpow_add₀ (by norm_num), Nat.cast_pow, ← zpow_natCast,
            Nat.cast_sub some_digit, Nat.cast_one, Nat.cast_ofNat]
      _ ≤ d.toRat := mul_le_mul_of_nonneg_right (Nat.cast_le.mpr least) ten.le
  have high : d.toRat < (10 : ℚ) ^ (d.leadingExponent + 1) := by
    calc d.toRat < ((10 ^ digitCount d.digits : ℕ) : ℚ) * 10 ^ d.exponent :=
          mul_lt_mul_of_pos_right (Nat.cast_lt.mpr most) ten
      _ = (10 : ℚ) ^ (d.leadingExponent + 1) := by
          rw [Nat.cast_pow, ← zpow_natCast, Nat.cast_ofNat, ← zpow_add₀ (by norm_num), leading]
          congr 1
          omega
  constructor
  · intro less
    exact high.trans_le (zpow_le_zpow_right₀ (by norm_num) less)
  · intro less
    by_contra notLess
    have power : (10 : ℚ) ^ k ≤ 10 ^ d.leadingExponent :=
      zpow_le_zpow_right₀ (by norm_num) (not_lt.mp notLess)
    linarith

theorem positional_eq_nil_iff (d : Decimal) : d.positional.2 = [] ↔ 0 ≤ d.exponent := by
  unfold positional
  dsimp only
  split
  · rename_i whole
    exact iff_of_true rfl whole
  · rename_i fraction
    split
    · rename_i inside
      refine iff_of_false (fun empty => ?_) fraction
      rw [List.drop_eq_nil_iff] at empty
      omega
    · exact iff_of_false (List.append_ne_nil_of_right_ne_nil _ (digitChars_ne_nil _)) fraction

theorem exponent_le_normalize (digits : ℕ) (exponent : ℤ) :
    exponent ≤ (normalize digits exponent).exponent := by
  induction digits, exponent using normalize.induct with
  | case1 digits exponent more ih =>
    rw [normalize, dif_pos more]
    omega
  | case2 digits exponent done => rw [normalize, dif_neg done]

section

variable {interval : Interval} {tie : Tie} {place : ℤ} {d : Decimal}

theorem exponent_pointAt? (taken : interval.pointAt? tie place = some d) : d.exponent = place := by
  unfold Interval.pointAt? at taken
  dsimp only at taken
  split at taken
  · cases taken
    rfl
  · split at taken
    · split at taken <;> cases taken <;> rfl
    · cases taken
      rfl
    · cases taken
      rfl
    · cases taken

/-- A natural number is a point of the grid of ones. -/
theorem pointAt?_zero_isSome (proper : interval.IsProper) (tie : Tie) {n : ℕ}
    (whole : interval.value.toRat = n) : (interval.pointAt? tie 0).isSome = true := by
  have bounds := Quotient.floorAt_bounds proper.value_pos 0
  rw [zpow_zero, mul_one, mul_one, whole, Nat.cast_le, Nat.cast_lt] at bounds
  have floor : interval.value.floorAt 0 = n := by omega
  have exact : (interval.value.compareAt (interval.value.floorAt 0) 0 == .eq) = true := by
    rw [beq_iff_eq, Quotient.compareAt_eq proper.value_pos, compare_eq_iff_eq, floor, whole,
      zpow_zero, mul_one]
  unfold Interval.pointAt?
  dsimp only
  rw [if_pos exact]
  rfl

end

theorem Quotient.leadingPlace_nonneg {q : Quotient} (divisor : 0 < q.denominator)
    (one : 1 ≤ q.toRat) : 0 ≤ q.leadingPlace := by
  have denominator : (0 : ℚ) < q.denominator := Nat.cast_pos.mpr divisor
  rw [toRat, one_le_div denominator, Nat.cast_le] at one
  have some_digit := digitCount_pos (q.numerator / q.denominator)
  rw [leadingPlace, if_pos one]
  omega

variable {m n : ℕ} {e f : ℤ}

theorem digits_shortest_pos (positive : 0 < m) (bound : m < 2 ^ 53) (e : ℤ) (tie : Tie) :
    0 < (shortest tie m e).digits := by
  have value := toRat_shortest_pos positive bound e tie
  rcases Nat.eq_zero_or_pos (shortest tie m e).digits with zero | nonzero
  · rw [toRat, zero, Nat.cast_zero, zero_mul] at value
    exact absurd value (lt_irrefl 0)
  · exact nonzero

theorem leadingExponent_shortest_zero (e : ℤ) (tie : Tie) :
    (shortest tie 0 e).leadingExponent = 0 := by
  rw [shortest, if_pos rfl, leadingExponent, length_digitChars, digitCount, if_pos (by decide)]
  rfl

theorem before_of_range {before behind : List ℕ} {k : ℕ}
    (range : List.range n = before ++ k :: behind) : before = List.range k := by
  rw [List.range_eq_range', List.range'_eq_append_iff] at range
  obtain ⟨j, -, front, rest⟩ := range
  obtain ⟨first, -⟩ := List.range'_eq_cons_iff.mp rest.symm
  rw [front, List.range_eq_range', ← first, Nat.zero_add, Nat.mul_one]

/-- The shortest decimal of a whole number ends at the ones or before them, since the grid of ones
is tried before the finer ones. -/
theorem exponent_shortest_nonneg (positive : 0 < m) (tie : Tie) (whole : (m : ℚ) * 2 ^ e = n) :
    0 ≤ (shortest tie m e).exponent := by
  have proper := Interval.isProper_around positive e
  have value : (Interval.around m e).value.toRat = n := by
    rw [Interval.toRat_mantissa, whole]
  have one : 1 ≤ (Interval.around m e).value.toRat := by
    have above : (0 : ℚ) < n := by
      rw [← whole]
      positivity
    rw [value]
    exact_mod_cast above
  have leading := Quotient.leadingPlace_nonneg proper.value_pos one
  rw [shortest, if_neg positive.ne']
  dsimp only
  split
  · rename_i point found
    obtain ⟨before, k, behind, range, taken, earlier⟩ := List.findSome?_eq_some_iff.mp found
    refine le_trans ?_ (exponent_le_normalize _ _)
    rw [exponent_pointAt? taken]
    by_contra beyond
    obtain ⟨j, place⟩ := Int.eq_ofNat_of_zero_le leading
    have ones := pointAt?_zero_isSome proper tie value
    have missed := earlier j (by
      rw [before_of_range range, List.mem_range]
      omega)
    rw [place, Int.sub_self] at missed
    rw [missed] at ones
    cases ones
  · rfl

/-- What is read back as a double with a fraction of its mantissa is no natural number. -/
theorem eq_of_contains_natural (positive : 0 < m) (inside : (Interval.around m e).Contains n)
    (fraction : e < 0) : (m : ℚ) * 2 ^ e = n := by
  obtain ⟨k, rfl⟩ : ∃ k : ℕ, e = -k := ⟨e.natAbs, by omega⟩
  have unit : (0 : ℚ) < 2 ^ k := by positivity
  have scaled : (n : ℚ) = (n * 2 ^ k : ℕ) * 2 ^ (-(k : ℤ)) := by
    rw [zpow_neg, zpow_natCast, Nat.cast_mul, Nat.cast_pow, Nat.cast_ofNat,
      mul_inv_cancel_right₀ unit.ne']
  rw [scaled] at inside
  obtain ⟨low, high⟩ := Interval.contains_scaled positive inside
  have reach : (Interval.reach m (-k) : ℚ) ≤ 2 := by
    exact_mod_cast (Interval.reach_bounds m (-k)).2
  have least : m < n * 2 ^ k + 1 := by
    have below : (m : ℚ) < (n * 2 ^ k : ℕ) + 1 := by
      rcases low with less | ⟨-, same⟩ <;> linarith
    exact_mod_cast below
  have most : n * 2 ^ k < m + 1 := by
    have above : ((n * 2 ^ k : ℕ) : ℚ) < m + 1 := by
      rcases high with less | ⟨-, same⟩ <;> linarith
    exact_mod_cast above
  rw [scaled, show m = n * 2 ^ k by omega]

/-- The shortest decimal of a double has no fraction exactly when the double is a whole number. -/
theorem exponent_shortest_nonneg_iff (positive : 0 < m) (bound : m < 2 ^ 53) (tie : Tie) :
    0 ≤ (shortest tie m e).exponent ↔ ∃ n : ℕ, (m : ℚ) * 2 ^ e = n := by
  constructor
  · intro whole
    obtain ⟨k, place⟩ := Int.eq_ofNat_of_zero_le whole
    by_cases large : 0 ≤ e
    · obtain ⟨j, rfl⟩ := Int.eq_ofNat_of_zero_le large
      exact ⟨m * 2 ^ j, by push_cast; rfl⟩
    · have inside := contains_shortest positive bound e tie
      have natural : (shortest tie m e).toRat = ((shortest tie m e).digits * 10 ^ k : ℕ) := by
        rw [toRat, place, zpow_natCast]
        push_cast
        rfl
      rw [natural] at inside
      exact ⟨_, eq_of_contains_natural positive inside (by omega)⟩
  · rintro ⟨n, whole⟩
    exact exponent_shortest_nonneg positive tie whole

open Double (Shape)

/-- What is read back as a double, and is not above its shortest decimal, is above the shortest
decimals of the lesser doubles only. -/
theorem toRat_shortest_lt_iff {a b : Bool} {tie : Tie} {r : ℚ}
    (first : (Shape.finite a m e).Canonical) (positive : 0 < m)
    (second : (Shape.finite b n f).Canonical) (nonzero : 0 < n)
    (inside : (Interval.around n f).Contains r) (notAbove : r ≤ (shortest tie n f).toRat) :
    (shortest tie m e).toRat < r ↔ (m : ℚ) * 2 ^ e < n * 2 ^ f := by
  have written := contains_shortest positive first.mantissa_lt e tie
  have mantissa := Interval.contains_mantissa positive e
  have other := Interval.contains_mantissa nonzero f
  by_cases same : m = n ∧ e = f
  · obtain ⟨rfl, rfl⟩ := same
    exact iff_of_false (not_lt.mpr notAbove) (lt_irrefl _)
  have order : (e < f ∨ e = f ∧ m < n) ∨ f < e ∨ f = e ∧ n < m := by omega
  rcases order with less | greater
  · exact iff_of_true (Interval.lt_of_less first second less written inside)
      (Interval.lt_of_less first second less mantissa other)
  · exact iff_of_false (Interval.lt_of_less second first greater inside written).not_gt
      (Interval.lt_of_less second first greater other mantissa).not_gt

section

variable {a : Bool} (canonical : (Shape.finite a m e).Canonical) (positive : 0 < m)

include canonical positive

/-- A shortest decimal is below ten to the fifteenth exactly when its double is. -/
theorem toRat_shortest_lt_ten_pow :
    (shortest .up m e).toRat < 10 ^ (15 : ℤ) ↔ (m : ℚ) * 2 ^ e < 10 ^ (15 : ℤ) := by
  have limit : (Shape.finite false (10 ^ 15 * 2 ^ 3) (-3)).Canonical :=
    .finite false (by decide) (by decide) (by decide) (by decide)
  have written : shortest .up (10 ^ 15 * 2 ^ 3) (-3) = ⟨1, 15⟩ := by decide +kernel
  have value : ((10 ^ 15 * 2 ^ 3 : ℕ) : ℚ) * 2 ^ (-3 : ℤ) = 10 ^ (15 : ℤ) := by norm_num
  have order := toRat_shortest_lt_iff canonical positive limit (by decide)
    (Interval.contains_mantissa (by decide) (-3)) 
    (by rw [written, value, toRat, Nat.cast_one, one_mul])
  rwa [value] at order

/-- A shortest decimal is below two to the sixty-third exactly when its double is, and it is never
equal to it. -/
theorem toRat_shortest_lt_two_pow :
    ((shortest .up m e).toRat < 2 ^ 63 ↔ (m : ℚ) * 2 ^ e < 2 ^ 63) ∧
      (shortest .up m e).toRat ≠ 2 ^ 63 := by
  have limit : (Shape.finite false (2 ^ 52) 11).Canonical :=
    .finite false (by decide) (by decide) (by decide) (by decide)
  have written : shortest .up (2 ^ 52) 11 = ⟨9223372036854776, 3⟩ := by decide +kernel
  have value : ((2 ^ 52 : ℕ) : ℚ) * 2 ^ (11 : ℤ) = 2 ^ 63 := by norm_num
  have above : (2 : ℚ) ^ 63 < (shortest .up (2 ^ 52) 11).toRat := by
    rw [written, toRat]
    norm_num
  have order := toRat_shortest_lt_iff canonical positive limit (by decide)
    (Interval.contains_mantissa (by decide) 11) (by rw [value]; exact above.le)
  have strict := toRat_shortest_lt_iff canonical positive limit (by decide)
    (contains_shortest (by decide) (by decide) 11 .up) le_rfl
  rw [value] at order strict
  refine ⟨order, fun same => ?_⟩
  rw [same] at order strict
  exact lt_irrefl _ (order.mpr (strict.mp above))

end

end RecordQuery.Decimal
