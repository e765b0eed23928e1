import RecordQuery.Proofs.Decimal.Shortest
import RecordQuery.Proofs.Double.Integer

namespace RecordQuery.Double

open Decimal (Interval)
open Float.Model Float.Model.UnpackedFloat

/-- A number of which a mantissa is the whole part, with its residual bits as they say where the
number lies before the next mantissa. -/
def CutFrom (y : ℚ) (em : ExtendedMantissa) : Prop :=
  match em.roundBit, em.stickyBit with
  | false, false => y = em.mantissa
  | false, true => em.mantissa < y ∧ y < em.mantissa + 1 / 2
  | true, false => y = em.mantissa + 1 / 2
  | true, true => em.mantissa + 1 / 2 < y ∧ y < em.mantissa + 1

/-- A whole number no further from a number than a half, and even when it is that far. -/
structure NearestTo (y : ℚ) (n : ℕ) : Prop where
  low : (n : ℚ) - 1 / 2 < y ∨ n % 2 = 0 ∧ (n : ℚ) - 1 / 2 = y
  high : y < n + 1 / 2 ∨ n % 2 = 0 ∧ y = n + 1 / 2

section

variable {y : ℚ} {em : ExtendedMantissa}

theorem CutFrom.bounds (cut : CutFrom y em) : em.mantissa ≤ y ∧ y < em.mantissa + 1 := by
  obtain ⟨m, roundBit, stickyBit⟩ := em
  cases roundBit <;> cases stickyBit <;> simp only [CutFrom] at cut ⊢ <;>
    constructor <;> linarith

/-- Half of a number is cut one place further up. -/
theorem CutFrom.shiftRightOne (cut : CutFrom y em) : CutFrom (y / 2) em.shiftRightOne := by
  obtain ⟨m, roundBit, stickyBit⟩ := em
  have parts : ((m % 2 : ℕ) : ℚ) + 2 * ((m / 2 : ℕ) : ℚ) = m := by
    exact_mod_cast Nat.mod_add_div m 2
  rcases Nat.mod_two_eq_zero_or_one m with even | odd
  · rw [even, Nat.cast_zero, zero_add] at parts
    rw [ExtendedMantissa.shiftRightOne, even]
    change CutFrom _ ⟨m / 2, false, roundBit || stickyBit⟩
    cases roundBit <;> cases stickyBit <;>
      simp only [CutFrom, Bool.or_true, Bool.or_false] at cut ⊢ <;>
      first | linarith | constructor <;> linarith
  · rw [odd, Nat.cast_one] at parts
    rw [ExtendedMantissa.shiftRightOne, odd]
    change CutFrom _ ⟨m / 2, true, roundBit || stickyBit⟩
    cases roundBit <;> cases stickyBit <;>
      simp only [CutFrom, Bool.or_true, Bool.or_false] at cut ⊢ <;>
      first | linarith | constructor <;> linarith

theorem CutFrom.shiftRight (cut : CutFrom y em) (k : ℕ) : CutFrom (y / 2 ^ k) (em >>> k) := by
  induction k with
  | zero =>
    rw [pow_zero, div_one]
    exact cut
  | succ k ih =>
    rw [pow_succ, ← div_div]
    exact ih.shiftRightOne

theorem CutFrom.roundedMantissa (cut : CutFrom y em) {n : ℕ} (nearest : NearestTo y n) :
    em.roundedMantissa = n := by
  obtain ⟨m, roundBit, stickyBit⟩ := em
  obtain ⟨low, high⟩ := nearest
  have notBelow : (n : ℚ) - 1 / 2 ≤ y := low.elim le_of_lt fun tie => tie.2.le
  have notAbove : y ≤ n + 1 / 2 := high.elim le_of_lt fun tie => tie.2.le
  cases roundBit <;> cases stickyBit <;> simp only [CutFrom] at cut <;>
    simp only [ExtendedMantissa.roundedMantissa, ExtendedMantissa.accuracy,
      Accuracy.roundToNearestEven]
  · have least : n < m + 1 := by exact_mod_cast (by linarith : (n : ℚ) < m + 1)
    have most : m < n + 1 := by exact_mod_cast (by linarith : (m : ℚ) < n + 1)
    omega
  · have least : n < m + 1 := by exact_mod_cast (by linarith : (n : ℚ) < m + 1)
    have most : m < n + 1 := by exact_mod_cast (by linarith : (m : ℚ) < n + 1)
    omega
  · -- halfway between two mantissas the nearest one is the even one
    have least : n ≤ m + 1 := by exact_mod_cast (by linarith : (n : ℚ) ≤ m + 1)
    have most : m ≤ n := by exact_mod_cast (by linarith : (m : ℚ) ≤ n)
    have even : n % 2 = 0 := by
      rcases low with below | tie
      · rcases high with above | tie
        · have : n < m + 1 := by exact_mod_cast (by linarith : (n : ℚ) < m + 1)
          have : m < n := by exact_mod_cast (by linarith : (m : ℚ) < n)
          omega
        · exact tie.1
      · exact tie.1
    omega
  · have least : n < m + 2 := by exact_mod_cast (by linarith : (n : ℚ) < m + 2)
    have most : m < n := by exact_mod_cast (by linarith : (m : ℚ) < n)
    omega

end

section

variable {m : ℕ} {e f : ℤ} {z : ℚ}

/-- A number below the longest mantissa is close to a full mantissa at a greater exponent only just
below a power of two. -/
theorem power_of_above (normal : 2 ^ 52 ≤ m) (less : f < e) (small : z < 2 ^ 53)
    (above : (m : ℚ) - 1 / 2 ≤ z * 2 ^ (f - e)) : m = 2 ^ 52 ∧ e = f + 1 := by
  have large : (2 ^ 52 : ℚ) ≤ m := by exact_mod_cast normal
  have nonneg : 0 ≤ z :=
    (pos_of_mul_pos_left (by linarith : 0 < z * 2 ^ (f - e)) (by positivity)).le
  have next : e = f + 1 := by
    by_contra further
    have power : (2 : ℚ) ^ (f - e) ≤ 2 ^ (-2 : ℤ) := zpow_le_zpow_right₀ one_le_two (by omega)
    have product := mul_le_mul_of_nonneg_left power nonneg
    rw [show (2 : ℚ) ^ (-2 : ℤ) = 1 / 4 by norm_num] at product
    linarith
  subst next
  rw [show f - (f + 1) = -1 by omega, zpow_neg_one] at above
  refine ⟨?_, rfl⟩
  by_contra other
  have more : (2 ^ 52 + 1 : ℚ) ≤ m := by exact_mod_cast (by omega : 2 ^ 52 + 1 ≤ m)
  linarith

/-- A number that is read back as a double is rounded to its mantissa at its exponent. Only just
below a power of two the exponent is one less, and the mantissa becomes one bit too long. -/
theorem nearestTo_of_contains {a : Bool} (canonical : (Shape.finite a m e).Canonical)
    (positive : 0 < m) (least : -1074 ≤ f) (small : z < 2 ^ 53) (full : 2 ^ 52 ≤ z ∨ f = -1074)
    (inside : (Interval.around m e).Contains (z * 2 ^ f)) :
    f = e ∧ NearestTo z m ∨ m = 2 ^ 52 ∧ e = f + 1 ∧ NearestTo z (2 ^ 53) := by
  cases canonical with
  | finite _ bound lowest _ filled =>
    have far := Interval.reach_bounds m e
    have scaled (g : ℤ) : z * 2 ^ f = z * 2 ^ (f - g) * 2 ^ g := by
      rw [mul_assoc, ← zpow_add₀ two_ne_zero, sub_add_cancel]
    rw [scaled e] at inside
    obtain ⟨low, high⟩ := Interval.contains_scaled positive inside
    have reach : (Interval.reach m e : ℚ) ≤ 2 := by exact_mod_cast far.2
    have above : (m : ℚ) - 1 / 2 ≤ z * 2 ^ (f - e) := by
      rcases low with less | ⟨-, same⟩ <;> linarith
    have below : z * 2 ^ (f - e) ≤ m + 1 / 2 := high.elim le_of_lt fun tie => tie.2.le
    rcases lt_trichotomy f e with less | rfl | greater
    · right
      obtain ⟨rfl, rfl⟩ := power_of_above (filled.resolve_right (by omega)) less small above
      rw [show f - (f + 1) = -1 by omega, zpow_neg_one] at above low
      have half : Interval.reach (2 ^ 52) (f + 1) = 1 := if_pos ⟨rfl, by omega⟩
      rw [half] at low
      refine ⟨rfl, rfl, low.imp (fun strict => ?_) fun tie => ⟨rfl, ?_⟩, .inl ?_⟩
      · push_cast at strict ⊢
        linarith
      · have same := tie.2
        push_cast at same ⊢
        linarith
      · push_cast
        linarith
    · left
      rw [sub_self, zpow_zero, mul_one] at low high
      refine ⟨rfl, ?_, high⟩
      by_cases power : m = 2 ^ 52 ∧ -1074 < f
      · have whole := full.resolve_right (by omega)
        left
        rw [power.1]
        push_cast
        linarith
      · rwa [Interval.reach, if_neg power, show (((2 : ℕ) : ℚ) / 4) = 1 / 2 by norm_num] at low
    · have normal := full.resolve_right (by omega)
      have power : (2 : ℚ) ^ (1 : ℤ) ≤ 2 ^ (f - e) := zpow_le_zpow_right₀ one_le_two (by omega)
      have product := mul_le_mul_of_nonneg_left power (by linarith : 0 ≤ z)
      have most : (m : ℚ) + 1 ≤ 2 ^ 53 := by exact_mod_cast bound
      rw [zpow_one] at product
      linarith

/-- A mantissa that is not too long keeps its exponent. -/
theorem carried_of_lt (s : Sign) (positive : 0 < m) (bound : m < 2 ^ 53) (least : -1074 ≤ e) :
    carried s m e = .finite s m e positive := by
  have most : m.log2 < 53 := (Nat.log2_lt positive.ne').mpr bound
  have target : Format.targetExponent .binary64 (totalExponent m e) =
      max ((m.log2 : ℤ) + 1 + e - 53) (-1074) := rfl
  refine carried_eq_finite positive ?_ ?_
  · rw [shiftToTargetExponent, shiftToExponent, target,
      show (max ((m.log2 : ℤ) + 1 + e - 53) (-1074) - e).toNat = 0 by omega,
      show m.log2 - 52 = 0 by omega, Nat.cast_zero, add_zero]
  · rw [show m.log2 - 52 = 0 by omega]
    rfl

/-- A mantissa that rounding has made one bit too long is halved. -/
theorem carried_overflow (s : Sign) (least : -1074 ≤ f) :
    carried s (2 ^ 53) f = .finite s (2 ^ 52) (f + 1) (by decide) := by
  have width : (2 ^ 53 : ℕ).log2 = 53 := by decide
  have shifted := shiftToTargetExponent_exact (m := 2 ^ 53) (e := f) (by omega) (by omega)
  rw [width] at shifted
  exact carried_eq_finite _ (width.symm ▸ shifted) (by rw [width]; decide)

end

/-- A long mantissa is shifted until 53 bits of it are left, or fewer at the least exponent. -/
theorem shifted_bounds {y : ℚ} {k shift : ℕ} {g : ℤ}
    (moved : max ((k.log2 : ℤ) + 1 + g - 53) (-1074) - g = shift) (above : (k : ℚ) ≤ y)
    (below : y < k + 1) (long : 52 ≤ k.log2 ∨ g ≤ -1074) :
    y / 2 ^ shift < 2 ^ 53 ∧ (2 ^ 52 ≤ y / 2 ^ shift ∨ g + shift = -1074) := by
  have unit : (0 : ℚ) < 2 ^ shift := by positivity
  constructor
  · have most : k + 1 ≤ 2 ^ (53 + shift) :=
      Nat.lt_log2_self.trans_le (Nat.pow_le_pow_right (by decide) (by omega))
    have cast : (k : ℚ) + 1 ≤ 2 ^ (53 + shift) := by exact_mod_cast most
    rw [div_lt_iff₀ unit, ← pow_add]
    linarith
  · by_cases floor : g + shift = -1074
    · exact .inr floor
    · have least : 2 ^ (52 + shift) ≤ k := by
        have width : k.log2 = 52 + shift := by omega
        rw [← width]
        refine Nat.log2_self_le fun zero => ?_
        rw [zero, Nat.log2_zero] at width
        omega
      have cast : (2 : ℚ) ^ (52 + shift) ≤ k := by exact_mod_cast least
      rw [le_div_iff₀ unit, ← pow_add]
      exact .inl (cast.trans above)

/-- A number that is read back as a double is rounded to it, from a mantissa that is long enough and
says how it was cut. -/
theorem roundWithAccuracy_of_contains (s : Sign) {a : Bool} {m k : ℕ} {e g : ℤ}
    {accuracy : Accuracy} {y : ℚ} (canonical : (Shape.finite a m e).Canonical) (positive : 0 < m)
    (cut : CutFrom y (ExtendedMantissa.ofMantissaAndAccuracy k accuracy))
    (long : 52 ≤ k.log2 ∨ g ≤ -1074) (inside : (Interval.around m e).Contains (y * 2 ^ g)) :
    roundWithAccuracy .binary64 s k g accuracy = .finite s m e positive := by
  have rounded : roundWithAccuracy .binary64 s k g accuracy =
      carried s (shiftToTargetExponent .binary64 k g accuracy).1.roundedMantissa
        (shiftToTargetExponent .binary64 k g accuracy).2 := rfl
  have target : Format.targetExponent .binary64 (totalExponent k g) =
      max ((k.log2 : ℤ) + 1 + g - 53) (-1074) := rfl
  rw [rounded, shiftToTargetExponent, shiftToExponent, target]
  dsimp only
  obtain ⟨shift, moved⟩ : ∃ n : ℕ, max ((k.log2 : ℤ) + 1 + g - 53) (-1074) - g = n :=
    ⟨_, (Int.toNat_of_nonneg (by omega)).symm⟩
  rw [moved, Int.toNat_natCast]
  have mantissa : (ExtendedMantissa.ofMantissaAndAccuracy k accuracy).mantissa = k := by
    cases accuracy with
    | exact => rfl
    | inexact order => cases order <;> rfl
  obtain ⟨above, below⟩ := cut.bounds
  rw [mantissa] at above below
  have unit : (0 : ℚ) < 2 ^ shift := by positivity
  have scaled : y * 2 ^ g = y / 2 ^ shift * 2 ^ (g + shift) := by
    rw [zpow_add₀ two_ne_zero, zpow_natCast, mul_comm (2 ^ g), ← mul_assoc,
      div_mul_cancel₀ _ unit.ne']
  obtain ⟨small, full⟩ := shifted_bounds moved above below long
  rw [scaled] at inside
  have shifted := cut.shiftRight shift
  rcases nearestTo_of_contains canonical positive (by omega) small full inside with
    ⟨rfl, nearest⟩ | ⟨rfl, rfl, nearest⟩
  · rw [shifted.roundedMantissa nearest]
    cases canonical with
    | finite _ bound least => exact carried_of_lt s positive bound least
  · rw [shifted.roundedMantissa nearest]
    exact carried_overflow s (by omega)

/-- A quotient is its whole part with the rest as the accuracy of it. -/
theorem cutFrom_div (n : ℕ) {d : ℕ} (positive : 0 < d) :
    CutFrom ((n : ℚ) / d)
      (ExtendedMantissa.ofMantissaAndAccuracy (n / d) (accuracyOfFraction (n % d) d)) := by
  have divisor : (0 : ℚ) < d := Nat.cast_pos.mpr positive
  have parts : (n : ℚ) / d = (n / d : ℕ) + ((n % d : ℕ) : ℚ) / d := by
    rw [eq_comm, ← mul_left_inj' divisor.ne', add_mul, div_mul_cancel₀ _ divisor.ne',
      div_mul_cancel₀ _ divisor.ne', mul_comm]
    exact_mod_cast Nat.div_add_mod n d
  have less : n % d < d := Nat.mod_lt n positive
  rw [parts]
  generalize n / d = whole
  generalize n % d = rest at less
  have below : (rest : ℚ) / d < 1 := (div_lt_one divisor).mpr (Nat.cast_lt.mpr less)
  have half : (rest : ℚ) / d = 2 * rest / d / 2 := by ring
  rw [accuracyOfFraction]
  by_cases zero : rest = 0
  · rw [if_pos zero, zero, Nat.cast_zero, zero_div, add_zero]
    rfl
  · have above : 0 < (rest : ℚ) / d :=
      div_pos (Nat.cast_pos.mpr (Nat.pos_of_ne_zero zero)) divisor
    rw [if_neg zero]
    rcases Nat.lt_trichotomy (2 * rest) d with early | middle | late
    · have side : (2 * rest : ℚ) / d < 1 := (div_lt_one divisor).mpr (by exact_mod_cast early)
      rw [Std.compare_eq_lt.mpr early]
      change (whole : ℚ) < _ ∧ _ < (whole : ℚ) + 1 / 2
      constructor <;> linarith
    · have side : (2 * rest : ℚ) / d = 1 := (div_eq_one_iff_eq divisor.ne').mpr
        (by exact_mod_cast middle)
      rw [middle, Std.ReflOrd.compare_self]
      change _ + _ = (whole : ℚ) + 1 / 2
      linarith
    · have side : 1 < (2 * rest : ℚ) / d := (one_lt_div divisor).mpr (by exact_mod_cast late)
      rw [Std.compare_eq_gt.mpr late]
      change (whole : ℚ) + 1 / 2 < _ ∧ _ < (whole : ℚ) + 1
      constructor <;> linarith

section

variable {a : Bool} {m k l : ℕ} {e g h : ℤ} (s t : Sign) (kPos : 0 < k) (lPos : 0 < l)
  (canonical : (Shape.finite a m e).Canonical) (positive : 0 < m)

include canonical

theorem mul_of_contains (long : 52 ≤ k.log2)
    (inside : (Interval.around m e).Contains (k * 2 ^ g * (l * 2 ^ h))) :
    UnpackedFloat.mul .binary64 (.finite s k g kPos) (.finite t l h lPos) =
      .finite (s * t) m e positive := by
  have product : (k : ℚ) * 2 ^ g * (l * 2 ^ h) = (k * l : ℕ) * 2 ^ (g + h) := by
    rw [zpow_add₀ two_ne_zero]
    push_cast
    ring
  have width : 52 ≤ (k * l).log2 :=
    (Nat.le_log2 (Nat.mul_pos kPos lPos).ne').mpr
      (((Nat.le_log2 kPos.ne').mp long).trans (Nat.le_mul_of_pos_right k lPos))
  rw [product] at inside
  exact roundWithAccuracy_of_contains _ canonical positive rfl (.inl width) inside

theorem div_of_contains
    (inside : (Interval.around m e).Contains (k * 2 ^ g / (l * 2 ^ h))) :
    UnpackedFloat.div .binary64 (.finite s k g kPos) (.finite t l h lPos) =
      .finite (s / t) m e positive := by
  have target : Format.targetExponent .binary64 (totalExponent k g - totalExponent l h) =
      max ((k.log2 : ℤ) + 1 + g - (l.log2 + 1 + h) - 53) (-1074) := rfl
  have core : UnpackedFloat.div .binary64 (.finite s k g kPos) (.finite t l h lPos) =
      roundWithAccuracy .binary64 (s / t) (divCore .binary64 k g l h).1
        (divCore .binary64 k g l h).2.1 (divCore .binary64 k g l h).2.2 := rfl
  rw [core, divCore, target]
  dsimp only
  generalize place : min (g - h) (max ((k.log2 : ℤ) + 1 + g - (l.log2 + 1 + h) - 53) (-1074)) = p
  obtain ⟨shift, moved⟩ : ∃ n : ℕ, g - h - p = n := ⟨_, (Int.toNat_of_nonneg (by omega)).symm⟩
  rw [moved, Int.toNat_natCast, Nat.shiftLeft_eq]
  have quotient : (k : ℚ) * 2 ^ g / (l * 2 ^ h) = (k * 2 ^ shift : ℕ) / l * 2 ^ p := by
    calc (k : ℚ) * 2 ^ g / (l * 2 ^ h) = k / l * 2 ^ (g - h) := by
          rw [zpow_sub₀ two_ne_zero, mul_div_mul_comm]
      _ = k / l * 2 ^ ((shift : ℤ) + p) := by rw [← moved, sub_add_cancel]
      _ = (k * 2 ^ shift : ℕ) / l * 2 ^ p := by
          rw [zpow_add₀ two_ne_zero, zpow_natCast]
          push_cast
          ring
  rw [quotient] at inside
  refine roundWithAccuracy_of_contains _ canonical positive (cutFrom_div _ lPos) ?_ inside
  by_cases floor : p ≤ -1074
  · exact .inr floor
  · have enough : 2 ^ 52 * l ≤ k * 2 ^ shift := by
      calc 2 ^ 52 * l ≤ 2 ^ 52 * 2 ^ (l.log2 + 1) := Nat.mul_le_mul_left _ Nat.lt_log2_self.le
        _ = 2 ^ (52 + (l.log2 + 1)) := (Nat.pow_add ..).symm
        _ ≤ 2 ^ (k.log2 + shift) := Nat.pow_le_pow_right (by decide) (by omega)
        _ = 2 ^ k.log2 * 2 ^ shift := Nat.pow_add ..
        _ ≤ k * 2 ^ shift := Nat.mul_le_mul_right _ (Nat.log2_self_le kPos.ne')
    have full := (Nat.le_div_iff_mul_le lPos).mpr enough
    exact .inl ((Nat.le_log2 (Nat.ne_of_gt (Nat.lt_of_lt_of_le (by decide) full))).mpr full)

end

end RecordQuery.Double
