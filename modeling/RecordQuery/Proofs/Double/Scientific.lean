import RecordQuery.Double.Rounding
import RecordQuery.Proofs.Decimal.Layout
import RecordQuery.Proofs.Double.Nearest
import RecordQuery.Proofs.Double.Reading

namespace RecordQuery.Double

open Decimal (Interval)
open Float.Model Float.Model.UnpackedFloat

section

variable {x : Float} {negative : Bool} {m : ℕ} {e : ℤ}

theorem shape_of_unpack {positive : 0 < m}
    (unpacked : x.toModel.unpack = .finite (signOf negative) m e positive) :
    shape x = .finite negative m e := by
  rw [unpack_toModel] at unpacked
  cases parts : shape x with
  | nan =>
    rw [parts] at unpacked
    cases unpacked
  | infinite other =>
    rw [parts] at unpacked
    cases unpacked
  | finite other mantissa exponent =>
    rw [parts] at unpacked
    rcases Nat.eq_zero_or_pos mantissa with rfl | nonzero
    · cases unpacked
    · rw [unpacked_pos other exponent nonzero] at unpacked
      cases other <;> cases negative <;> cases unpacked <;> rfl

theorem shape_pack (canonical : (Shape.finite negative m e).Canonical) (positive : 0 < m) :
    shape (.ofModel (Float.Model.pack (.finite (signOf negative) m e positive))) =
      .finite negative m e := by
  cases canonical with
  | finite _ bound least most full =>
    exact shape_of_unpack (unpack_pack positive bound least most full)

theorem isFinite_of_isWhole (whole : isWhole x = true) : isFinite x = true := by
  cases parts : shape x with
  | finite => rw [isFinite, parts]
  | nan =>
    rw [isWhole, parts] at whole
    cases whole
  | infinite =>
    rw [isWhole, parts] at whole
    cases whole

/-- The whole part of a whole number is that number. -/
theorem exists_truncate? (finite : shape x = .finite negative m e) (whole : isWhole x = true) :
    ∃ n : ℕ, truncate? x = some (if negative then -(n : ℤ) else n) ∧ (n : ℚ) = m * 2 ^ e := by
  rw [isWhole, finite] at whole
  rw [truncate?, finite]
  refine ⟨_, rfl, ?_⟩
  by_cases large : 0 ≤ e
  · obtain ⟨n, rfl⟩ := Int.eq_ofNat_of_zero_le large
    rw [if_pos large, Int.toNat_natCast, zpow_natCast, Nat.pow_eq, Nat.cast_mul, Nat.cast_pow,
      Nat.cast_ofNat]
  · have divides : m % 2 ^ (-e).toNat = 0 := by simpa [large] using whole
    have product : m / 2 ^ (-e).toNat * 2 ^ (-e).toNat = m :=
      Nat.div_mul_cancel (Nat.dvd_of_mod_eq_zero divides)
    have power : (2 : ℚ) ^ e = (2 ^ (-e).toNat)⁻¹ := by
      rw [← zpow_natCast, ← zpow_neg, Int.toNat_of_nonneg (by omega), neg_neg]
    have unit : (0 : ℚ) < 2 ^ (-e).toNat := by positivity
    rw [if_neg large, power, ← div_eq_mul_inv, eq_div_iff unit.ne']
    exact_mod_cast product

end

/-- A number that is shifted to the left and scaled back is the number. -/
theorem scaled_mul_zpow (n k : ℕ) : ((n * 2 ^ k : ℕ) : ℚ) * 2 ^ (-(k : ℤ)) = n := by
  rw [zpow_neg, zpow_natCast, Nat.cast_mul, Nat.cast_pow, Nat.cast_ofNat,
    mul_inv_cancel_right₀ (by positivity)]

/-- A number has no more decimal digits than binary ones. -/
theorem digitCount_le_log2 {n : ℕ} (positive : 0 < n) : Decimal.digitCount n ≤ n.log2 + 1 := by
  have power : 2 ^ (Decimal.digitCount n - 1) ≤ n :=
    (Nat.pow_le_pow_left (by decide) _).trans (Decimal.digitCount_bounds positive).1
  have width := (Nat.le_log2 positive.ne').mpr power
  omega

theorem truncate?_powersOfTen :
    ∀ (e : ℕ) (_ : e < Float.exactlyRepresentablePowersOfTen.size),
      isWhole Float.exactlyRepresentablePowersOfTen[e] = true ∧
        truncate? Float.exactlyRepresentablePowersOfTen[e] = some (Int.ofNat (Nat.pow 10 e)) := by
  decide

theorem unpack_powerOfTen {e : ℕ} (bound : e < Float.exactlyRepresentablePowersOfTen.size) :
    ∃ k f positive, Float.exactlyRepresentablePowersOfTen[e].toModel.unpack =
        .finite .positive k f positive ∧ (k : ℚ) * 2 ^ f = 10 ^ e := by
  obtain ⟨whole, truncated⟩ := truncate?_powersOfTen e bound
  obtain ⟨negative, k, f, parts⟩ := exists_shape (isFinite_of_isWhole whole)
  obtain ⟨n, same, value⟩ := exists_truncate? parts whole
  rw [truncated, Option.some_inj, Int.ofNat_eq_natCast] at same
  have large : 0 < Nat.pow 10 e := Nat.pow_pos (by decide)
  cases negative with
  | true =>
    rw [if_pos rfl] at same
    omega
  | false =>
    rw [if_neg Bool.false_ne_true] at same
    have power : (n : ℚ) = 10 ^ e := by
      rw [← Int.ofNat.inj same]
      exact Nat.cast_pow ..
    rw [power] at value
    have positive : 0 < k := by
      rcases Nat.eq_zero_or_pos k with rfl | nonzero
      · rw [Nat.cast_zero, zero_mul] at value
        exact absurd value (by positivity)
      · exact nonzero
    refine ⟨k, f, positive, ?_, value.symm⟩
    rw [unpack_toModel, parts, unpacked_pos false f positive]
    rfl

section

variable {m d : ℕ} {e : ℤ} {r : ℚ}

/-- What is read back as a double that is not zero lies in the range of the doubles. -/
theorem range_of_contains {negative : Bool} (canonical : (Shape.finite negative m e).Canonical)
    (positive : 0 < m) (inside : (Interval.around m e).Contains r) :
    (2 : ℚ) ^ (-1075 : ℤ) ≤ r ∧ r < 2 ^ (1024 : ℤ) := by
  obtain ⟨low, high⟩ := inside
  have far := (Interval.reach_bounds m e).2
  cases canonical with
  | finite _ bound least most _ =>
    constructor
    · have bottom : (2 : ℚ) ^ (-1075 : ℤ) ≤ (Interval.around m e).low.toRat := by
        calc (2 : ℚ) ^ (-1075 : ℤ) = (2 : ℕ) * 2 ^ (-1076 : ℤ) := by
              rw [Nat.cast_ofNat, ← zpow_one_add₀ two_ne_zero]
              norm_num
          _ ≤ (2 : ℕ) * 2 ^ (e - 2) := by
              have power : (2 : ℚ) ^ (-1076 : ℤ) ≤ 2 ^ (e - 2) :=
                zpow_le_zpow_right₀ one_le_two (by omega)
              exact mul_le_mul_of_nonneg_left power (Nat.cast_nonneg _)
          _ ≤ (4 * m - Interval.reach m e : ℕ) * 2 ^ (e - 2) :=
              Interval.cast_mul_le (by omega) _
          _ = _ := (Interval.toRat_low m e).symm
      exact low.elim (fun less => bottom.trans less.le) fun tie => bottom.trans tie.2.le
    · have top : (Interval.around m e).high.toRat < 2 ^ (1024 : ℤ) := by
        calc (Interval.around m e).high.toRat = (4 * m + 2 : ℕ) * 2 ^ (e - 2) :=
              Interval.toRat_high m e
          _ < (2 ^ 55 : ℕ) * 2 ^ (e - 2) := Interval.cast_mul_lt (by omega) _
          _ ≤ (2 ^ 55 : ℕ) * 2 ^ (969 : ℤ) := by
              have power : (2 : ℚ) ^ (e - 2) ≤ 2 ^ (969 : ℤ) :=
                zpow_le_zpow_right₀ one_le_two (by omega)
              exact mul_le_mul_of_nonneg_left power (Nat.cast_nonneg _)
          _ = 2 ^ (1024 : ℤ) := by
              rw [Nat.cast_pow, Nat.cast_ofNat, ← zpow_natCast, ← zpow_add₀ two_ne_zero]
              rfl
      exact high.elim (fun less => less.trans top) fun tie => tie.2.trans_lt top

variable (canonical : (Shape.finite false m e).Canonical) (positive : 0 < m)

include canonical positive

theorem digits_pos {p : ℚ} (inside : (Interval.around m e).Contains (d * p)) : 0 < d := by
  obtain ⟨above, -⟩ := range_of_contains canonical positive inside
  rcases Nat.eq_zero_or_pos d with rfl | nonzero
  · rw [Nat.cast_zero, zero_mul] at above
    exact absurd above (not_le.mpr (by positivity))
  · exact nonzero

/-- A decimal that is read back as a double has no place far from the range of the doubles. -/
theorem leadingPlace_bounds {k : ℤ} (inside : (Interval.around m e).Contains (d * 10 ^ k)) :
    -330 ≤ (Decimal.digitCount d : ℤ) + k ∧ (Decimal.digitCount d : ℤ) + k ≤ 310 := by
  have dPos := digits_pos canonical positive inside
  obtain ⟨above, below⟩ := range_of_contains canonical positive inside
  obtain ⟨least, most⟩ := Decimal.digitCount_bounds dPos
  have some_digit := Decimal.digitCount_pos d
  have ten : (0 : ℚ) < 10 ^ k := by positivity
  constructor
  · by_contra tiny
    have powers : (10 : ℚ) ^ (-331 : ℤ) < 2 ^ (-1075 : ℤ) := by
      have naturals : 2 ^ 1075 < 10 ^ 331 := by decide +kernel
      have cast : (2 : ℚ) ^ 1075 < 10 ^ 331 := by exact_mod_cast naturals
      rw [zpow_neg, zpow_neg]
      exact inv_strictAnti₀ (by positivity) (by exact_mod_cast cast)
    have small : d * 10 ^ k < (2 : ℚ) ^ (-1075 : ℤ) := by
      calc (d : ℚ) * 10 ^ k < ((10 ^ Decimal.digitCount d : ℕ) : ℚ) * 10 ^ k :=
            mul_lt_mul_of_pos_right (Nat.cast_lt.mpr most) ten
        _ = 10 ^ ((Decimal.digitCount d : ℤ) + k) := by
            rw [zpow_add₀ (by norm_num), zpow_natCast, Nat.cast_pow, Nat.cast_ofNat]
        _ ≤ 10 ^ (-331 : ℤ) := zpow_le_zpow_right₀ (by norm_num) (by omega)
        _ < 2 ^ (-1075 : ℤ) := powers
    exact absurd above (not_le.mpr small)
  · by_contra huge
    have powers : (2 : ℚ) ^ (1024 : ℤ) ≤ 10 ^ (310 : ℤ) := by
      have naturals : 2 ^ 1024 ≤ 10 ^ 310 := by decide +kernel
      exact_mod_cast naturals
    have large : (2 : ℚ) ^ (1024 : ℤ) ≤ d * 10 ^ k := by
      calc (2 : ℚ) ^ (1024 : ℤ) ≤ 10 ^ (310 : ℤ) := powers
        _ ≤ 10 ^ (((Decimal.digitCount d - 1 : ℕ) : ℤ) + k) :=
            zpow_le_zpow_right₀ (by norm_num) (by omega)
        _ = ((10 ^ (Decimal.digitCount d - 1) : ℕ) : ℚ) * 10 ^ k := by
            rw [zpow_add₀ (by norm_num), zpow_natCast, Nat.cast_pow, Nat.cast_ofNat]
        _ ≤ d * 10 ^ k := mul_le_mul_of_nonneg_right (Nat.cast_le.mpr least) ten.le
    exact absurd below (not_lt.mpr large)

theorem unpacked_ofScientific {k : ℤ}
    (inside : (Interval.around m e).Contains (d * 10 ^ k)) :
    UnpackedFloat.ofScientific .binary64 d k = .finite .positive m e positive := by
  have dPos := digits_pos canonical positive inside
  obtain ⟨least, most⟩ := leadingPlace_bounds canonical positive inside
  have places := digitCount_le_log2 dPos
  have some_digit := Decimal.digitCount_pos d
  have notHuge : ¬ k > 2 ^ 11 := by omega
  have notTiny : ¬ k < -((2 ^ 11 : ℤ) + d.log2) := by omega
  rw [UnpackedFloat.ofScientific, dif_neg dPos.ne', if_neg notHuge, if_neg notTiny]
  by_cases whole : 0 ≤ k
  · have product : ((d <<< 53 : ℕ) : ℚ) * 2 ^ (-53 : ℤ) * ((10 ^ k.toNat : ℕ) * 2 ^ (0 : ℤ)) =
        d * 10 ^ k := by
      obtain ⟨n, rfl⟩ := Int.eq_ofNat_of_zero_le whole
      have scaled := scaled_mul_zpow d 53
      rw [Nat.cast_ofNat] at scaled
      rw [Nat.shiftLeft_eq, scaled, Int.toNat_natCast, zpow_natCast, zpow_zero, mul_one,
        Nat.cast_pow, Nat.cast_ofNat]
    have long : 52 ≤ (d <<< 53).log2 := by
      rw [Nat.shiftLeft_eq, log2_scaled 53 dPos]
      omega
    rw [← product] at inside
    rw [if_pos whole]
    exact mul_of_contains .positive .positive _ _ canonical positive long inside
  · have quotient : (d : ℚ) * 2 ^ (0 : ℤ) / ((10 ^ (-k).toNat : ℕ) * 2 ^ (0 : ℤ)) =
        d * 10 ^ k := by
      obtain ⟨n, rfl⟩ : ∃ n : ℕ, k = -n := ⟨k.natAbs, by omega⟩
      rw [neg_neg, Int.toNat_natCast, zpow_neg, zpow_natCast, zpow_zero, mul_one, mul_one,
        div_eq_mul_inv]
      push_cast
      rfl
    rw [← quotient] at inside
    rw [if_neg whole]
    exact div_of_contains .positive .positive _ _ canonical positive inside

/-- A decimal in the notation of science denotes the double that it is read back as. -/
theorem shape_ofScientific {negative : Bool} {k : ℕ}
    (inside : (Interval.around m e).Contains (d * 10 ^ (if negative then -(k : ℤ) else k))) :
    shape (Float.ofScientific d negative k) = .finite false m e := by
  unfold Float.ofScientific
  split
  · rename_i small
    have dPos := digits_pos canonical positive inside
    have bound : k < Float.exactlyRepresentablePowersOfTen.size := Nat.lt_succ_of_le small.2
    obtain ⟨p, f, pPos, power, value⟩ := unpack_powerOfTen bound
    have word := unpack_toFloat dPos small.1
    have same := scaled_mul_zpow d (52 - d.log2)
    cases negative with
    | true =>
      rw [if_pos rfl, zpow_neg, zpow_natCast, ← div_eq_mul_inv, ← same, ← value] at inside
      change shape (.ofModel (Float.Model.pack (UnpackedFloat.div .binary64
        d.toUInt64.toFloat.toModel.unpack
        Float.exactlyRepresentablePowersOfTen[k].toModel.unpack))) = _
      rw [word, power, div_of_contains .positive .positive _ pPos canonical positive inside]
      exact shape_pack canonical positive
    | false =>
      have long : 52 ≤ (d * 2 ^ (52 - d.log2)).log2 := by
        rw [log2_scaled _ dPos]
        omega
      rw [if_neg Bool.false_ne_true, zpow_natCast, ← same, ← value] at inside
      change shape (.ofModel (Float.Model.pack (UnpackedFloat.mul .binary64
        d.toUInt64.toFloat.toModel.unpack
        Float.exactlyRepresentablePowersOfTen[k].toModel.unpack))) = _
      rw [word, power, mul_of_contains .positive .positive _ pPos canonical positive long inside]
      exact shape_pack canonical positive
  · change shape (.ofModel (Float.Model.pack (UnpackedFloat.ofScientific .binary64 d
      (if negative then Int.negOfNat k else Int.ofNat k)))) = _
    have exponent : (if negative then Int.negOfNat k else Int.ofNat k) =
        if negative then -(k : ℤ) else k := by
      rw [Int.negOfNat_eq]
      rfl
    rw [exponent, unpacked_ofScientific canonical positive inside]
    exact shape_pack canonical positive

/-- The exponents that are settled at once are those of no double but zero. -/
theorem shape_ofDecimal {k : ℤ} (inside : (Interval.around m e).Contains (d * 10 ^ k)) :
    shape (ofDecimal d k) = .finite false m e := by
  have dPos := digits_pos canonical positive inside
  obtain ⟨least, most⟩ := leadingPlace_bounds canonical positive inside
  have exponent : (if decide (k < 0) then -(k.natAbs : ℤ) else k.natAbs) = k := by
    by_cases negative : k < 0
    · rw [decide_eq_true negative, if_pos rfl]
      omega
    · rw [decide_eq_false negative, if_neg Bool.false_ne_true]
      omega
  rw [ofDecimal, if_neg dPos.ne']
  dsimp only
  rw [if_neg (not_lt.mpr most), if_neg (not_lt.mpr least)]
  refine shape_ofScientific canonical positive ?_
  rwa [exponent]

theorem shape_neg {y : Float} (finite : shape y = .finite false m e) :
    shape (-y) = .finite true m e := by
  change shape (.ofModel (Float.Model.pack (UnpackedFloat.neg y.toModel.unpack))) = _
  rw [unpack_toModel, finite, unpacked_pos false e positive]
  cases canonical with
  | finite _ bound least most full => exact shape_pack (.finite true bound least most full) positive

end

section

variable {x : Float} {negative : Bool} {m : ℕ} {e k : ℤ} {whole fraction : List Char}

/-- Digits denote the double that they are read back as. -/
theorem ofDigits_of_contains (finite : shape x = .finite negative m e) (positive : 0 < m)
    (inside : (Interval.around m e).Contains
      (Decimal.valueOf (whole ++ fraction) * 10 ^ (k - fraction.length))) :
    ofDigits negative whole fraction k = x := by
  have canonical : (Shape.finite false m e).Canonical := (canonical_of_finite finite).unsigned
  have magnitude := shape_ofDecimal canonical positive inside
  rw [ofDigits]
  cases negative with
  | false => exact eq_of_shape_eq magnitude finite
  | true => exact eq_of_shape_eq (shape_neg canonical positive magnitude) finite

/-- The double of an integer is the one that the integer is read back as. -/
theorem ofInt_of_contains (finite : shape x = .finite negative m e) (positive : 0 < m) {n : ℕ}
    (inside : (Interval.around m e).Contains n) :
    Float.ofInt (if negative then -(n : ℤ) else n) = x := by
  have canonical : (Shape.finite false m e).Canonical := (canonical_of_finite finite).unsigned
  have scaled : (n : ℚ) = n * 10 ^ (if false then -((0 : ℕ) : ℤ) else (0 : ℕ)) := by simp
  rw [scaled] at inside
  have magnitude := shape_ofScientific canonical positive inside
  cases negative with
  | false => exact eq_of_shape_eq magnitude finite
  | true =>
    obtain ⟨k, rfl⟩ := Nat.exists_eq_succ_of_ne_zero (digits_pos canonical positive inside).ne'
    exact eq_of_shape_eq (shape_neg canonical positive magnitude) finite

/-- Zeros denote the zero of either sign. -/
theorem ofDigits_zero (finite : shape x = .finite negative 0 e)
    (zeros : Decimal.valueOf (whole ++ fraction) = 0) :
    ofDigits negative whole fraction k = x := by
  have least : e = -1074 := by
    cases canonical_of_finite finite with
    | finite _ _ _ _ full => omega
  subst least
  rw [ofDigits, zeros, ofDecimal, if_pos rfl]
  cases negative with
  | false =>
    have zero : shape 0.0 = .finite false 0 (-1074) := by decide
    exact eq_of_shape_eq zero finite
  | true =>
    have zero : shape (-0.0) = .finite true 0 (-1074) := by decide
    exact eq_of_shape_eq zero finite

/-- Digits that denote the shortest decimal of a double denote the double. -/
theorem ofDigits_of_shortest {tie : Decimal.Tie} (finite : shape x = .finite negative m e)
    (denotes : (Decimal.valueOf (whole ++ fraction) : ℚ) * 10 ^ (k - fraction.length) =
      (Decimal.shortest tie m e).toRat) : ofDigits negative whole fraction k = x := by
  have bound := (canonical_of_finite finite).mantissa_lt
  rcases Nat.eq_zero_or_pos m with rfl | positive
  · rw [Decimal.toRat_shortest_zero, mul_eq_zero, Nat.cast_eq_zero] at denotes
    exact ofDigits_zero finite (denotes.resolve_right (by positivity))
  · have inside := Decimal.contains_shortest positive bound e tie
    rw [← denotes] at inside
    exact ofDigits_of_contains finite positive inside

end

end RecordQuery.Double
