import Mathlib.Tactic.Positivity
import RecordQuery.Proofs.Double.Order

namespace RecordQuery.Double

open Float.Model Float.Model.UnpackedFloat

/-- The whole number nearest to `m` over two to the `k`, and the even one of two that are equally
near. -/
def nearestEven (m k : Nat) : Nat :=
  if 2 * (m % 2 ^ k) < 2 ^ k then m / 2 ^ k
  else if 2 * (m % 2 ^ k) = 2 ^ k then m / 2 ^ k + m / 2 ^ k % 2
  else m / 2 ^ k + 1

theorem le_nearestEven (m k : Nat) : m / 2 ^ k ≤ nearestEven m k := by
  unfold nearestEven
  split
  · rfl
  · split <;> omega

theorem nearestEven_le (m k : Nat) : nearestEven m k ≤ m / 2 ^ k + 1 := by
  unfold nearestEven
  split
  · omega
  · split <;> omega

/-- Rounding keeps the order of the numbers that are rounded. -/
theorem nearestEven_mono {m n : Nat} (k : Nat) (le : m ≤ n) :
    nearestEven m k ≤ nearestEven n k := by
  have quotients : m / 2 ^ k ≤ n / 2 ^ k := Nat.div_le_div_right le
  rcases Nat.lt_or_eq_of_le quotients with less | same
  · have below := nearestEven_le m k
    have above := le_nearestEven n k
    omega
  · have remainders : m % 2 ^ k ≤ n % 2 ^ k := by
      have first := Nat.div_add_mod m (2 ^ k)
      have second := Nat.div_add_mod n (2 ^ k)
      rw [same] at first
      omega
    unfold nearestEven
    rw [same]
    split <;> split <;> (try split) <;> (try split) <;> omega

/-- Rounding depends on the number only and not on how the fraction is written. -/
theorem nearestEven_scale (m k i : Nat) : nearestEven (m * 2 ^ i) (k + i) = nearestEven m k := by
  have quotient : m * 2 ^ i / 2 ^ (k + i) = m / 2 ^ k := by
    rw [Nat.pow_add, Nat.mul_div_mul_right _ _ (by positivity)]
  have remainder : m * 2 ^ i % 2 ^ (k + i) = m % 2 ^ k * 2 ^ i := by
    rw [Nat.pow_add, Nat.mul_mod_mul_right]
  have positive : 0 < 2 ^ i := by positivity
  have less : 2 * (m % 2 ^ k * 2 ^ i) < 2 ^ (k + i) ↔ 2 * (m % 2 ^ k) < 2 ^ k := by
    rw [Nat.pow_add, ← Nat.mul_assoc]
    exact Nat.mul_lt_mul_right positive
  have equal : 2 * (m % 2 ^ k * 2 ^ i) = 2 ^ (k + i) ↔ 2 * (m % 2 ^ k) = 2 ^ k := by
    rw [Nat.pow_add, ← Nat.mul_assoc]
    exact Nat.mul_left_inj (Nat.ne_of_gt positive)
  unfold nearestEven
  rw [quotient, remainder]
  simp only [less, equal]

/-- What is left of a mantissa that is shifted to the right, and what its two residual bits say
about the rest. -/
theorem shiftRight_exact (m k : Nat) :
    (ExtendedMantissa.ofMantissaAndAccuracy m .exact >>> (k + 1)) =
      ⟨m / 2 ^ (k + 1), m / 2 ^ k % 2 != 0, m % 2 ^ k != 0⟩ := by
  induction k with
  | zero => simp [HShiftRight.hShiftRight, Nat.repeat, ExtendedMantissa.ofMantissaAndAccuracy,
      ExtendedMantissa.shiftRightOne, Nat.mod_one]
  | succ k ih =>
    change ExtendedMantissa.shiftRightOne
      (ExtendedMantissa.ofMantissaAndAccuracy m .exact >>> (k + 1)) = _
    rw [ih]
    have sticky : (m / 2 ^ k % 2 != 0 || m % 2 ^ k != 0) = (m % 2 ^ (k + 1) != 0) := by
      have split : m % 2 ^ (k + 1) = m % 2 ^ k + 2 ^ k * (m / 2 ^ k % 2) := Nat.mod_pow_succ
      have positive : 0 < 2 ^ k := by positivity
      rw [split, Bool.eq_iff_iff]
      simp only [Bool.or_eq_true, bne_iff_ne, ne_eq, Nat.add_eq_zero_iff, Nat.mul_eq_zero]
      omega
    simp only [ExtendedMantissa.shiftRightOne, sticky]
    rw [Nat.div_div_eq_div_mul, ← Nat.pow_succ]

theorem roundedMantissa_shiftRight (m k : Nat) :
    (ExtendedMantissa.ofMantissaAndAccuracy m .exact >>> k).roundedMantissa = nearestEven m k := by
  cases k with
  | zero =>
    change m = _
    simp [nearestEven, Nat.mod_one]
  | succ k =>
    rw [shiftRight_exact]
    have split : m % 2 ^ (k + 1) = m % 2 ^ k + 2 ^ k * (m / 2 ^ k % 2) := Nat.mod_pow_succ
    have bound : m % 2 ^ k < 2 ^ k := Nat.mod_lt _ (by positivity)
    have power : 2 ^ (k + 1) = 2 * 2 ^ k := by rw [Nat.pow_succ, Nat.mul_comm]
    unfold nearestEven
    rcases Nat.mod_two_eq_zero_or_one (m / 2 ^ k) with even | odd
    · have remainder : m % 2 ^ (k + 1) = m % 2 ^ k := by rw [split, even]; omega
      rw [even, remainder, if_pos (by omega)]
      cases h : (m % 2 ^ k != 0) <;> rfl
    · have remainder : m % 2 ^ (k + 1) = m % 2 ^ k + 2 ^ k := by rw [split, odd]; omega
      rw [odd, remainder, if_neg (by omega)]
      by_cases rest : m % 2 ^ k = 0
      · rw [if_pos (by omega), rest]
        rfl
      · rw [if_neg (by omega), show (m % 2 ^ k != 0) = true from bne_iff_ne.mpr rest]
        rfl

theorem unpackSign_packComponents (sign : Sign) (exponent : BitVec 11) (mantissa : BitVec 52) :
    unpackSign (packComponents .binary64 sign exponent mantissa) = sign.toBitVec := by
  apply BitVec.eq_of_getLsbD_eq
  intro i hi
  have : i = 0 := by omega
  subst this
  unfold unpackSign packComponents
  rw [BitVec.getLsbD_cast, BitVec.getLsbD_extractLsb]
  rw [BitVec.getLsbD_append, BitVec.getLsbD_append]
  simp

theorem pack_canonical {s : Sign} {m : Nat} {e : Int} (positive : 0 < m) (bound : m < 2 ^ 53)
    (least : -1074 ≤ e) (most : e ≤ 971) :
    UnpackedFloat.pack .binary64 (.finite s m e positive) =
      packComponents .binary64 s (BitVec.ofNat 11 (if 2 ^ 52 ≤ m then (e + 1075).toNat else 0))
        (BitVec.ofNat 52 m) := by
  change (if 2 ^ 11 ≤ (e + 1023 + 52).toNat + 1 then packedInfinity .binary64 s
    else if m.log2 + 1 = 53 then
      packComponents .binary64 s (BitVec.ofNat 11 (e + 1023 + 52).toNat) (BitVec.ofNat 52 m)
    else packComponents .binary64 s 0#11 (BitVec.ofNat 52 m)) = _
  have bits : m.log2 + 1 = 53 ↔ 2 ^ 52 ≤ m := by
    have low := Nat.log2_lt (n := m) (k := 52) (by omega)
    have high := Nat.log2_lt (n := m) (k := 53) (by omega)
    omega
  rw [if_neg (by omega)]
  simp only [bits]
  split
  · rw [show e + 1023 + 52 = e + 1075 by omega]
  · rfl

/-- What is unpacked from given parts. -/
theorem unpack_packComponents (s : Sign) (exponent : BitVec 11) (mantissa : BitVec 52) :
    UnpackedFloat.unpack .binary64 (packComponents .binary64 s exponent mantissa) =
      if exponent = -1#11 then if mantissa = 0#52 then .infinity s else .notANumber
      else if exponent = 0#11 then
        if zero : mantissa = 0#52 then .zero s
        else .finite s mantissa.toNat (exponent.toNat - (1023 + 52) + 1)
          (Nat.pos_of_ne_zero fun same => zero (BitVec.eq_of_toNat_eq same))
      else .finite s (1#1 ++ mantissa).toNat (exponent.toNat - (1023 + 52))
        (by rw [toNat_withLeadingOne]; omega) := by
  have mantissas : unpackMantissa (packComponents .binary64 s exponent mantissa) = mantissa :=
    unpackMantissa_packComponents
  have exponents : unpackExponent (packComponents .binary64 s exponent mantissa) = exponent :=
    unpackExponent_packComponents
  have signs : Sign.ofBitVec (unpackSign (packComponents .binary64 s exponent mantissa)) = s := by
    rw [unpackSign_packComponents]
    cases s <;> rfl
  generalize packComponents .binary64 s exponent mantissa = bits at *
  subst mantissas exponents signs
  rfl

theorem unpack_pack {s : Sign} {m : Nat} {e : Int} (positive : 0 < m) (bound : m < 2 ^ 53)
    (least : -1074 ≤ e) (most : e ≤ 971) (full : 2 ^ 52 ≤ m ∨ e = -1074) :
    UnpackedFloat.unpack .binary64 (UnpackedFloat.pack .binary64 (.finite s m e positive)) =
      .finite s m e positive := by
  rw [pack_canonical positive bound least most, unpack_packComponents]
  by_cases normal : 2 ^ 52 ≤ m
  · have exponent : (BitVec.ofNat 11 (e + 1075).toNat).toNat = (e + 1075).toNat :=
      BitVec.toNat_ofNat .. ▸ Nat.mod_eq_of_lt (by omega)
    have special : BitVec.ofNat 11 (e + 1075).toNat ≠ -1#11 := by
      intro same
      rw [← BitVec.toNat_inj, exponent] at same
      change (e + 1075).toNat = 2047 at same
      omega
    have zero : BitVec.ofNat 11 (e + 1075).toNat ≠ 0#11 := by
      intro same
      rw [← BitVec.toNat_inj, exponent] at same
      change (e + 1075).toNat = 0 at same
      omega
    rw [if_pos normal, if_neg special, if_neg zero]
    have mantissa : (1#1 ++ BitVec.ofNat 52 m).toNat = m := by
      rw [toNat_withLeadingOne, BitVec.toNat_ofNat]
      omega
    refine finite_congr rfl mantissa ?_
    rw [exponent]
    omega
  · have mantissa : (BitVec.ofNat 52 m).toNat = m :=
      BitVec.toNat_ofNat .. ▸ Nat.mod_eq_of_lt (by omega)
    have nonzero : BitVec.ofNat 52 m ≠ 0#52 := by
      intro same
      rw [← BitVec.toNat_inj, mantissa] at same
      change m = 0 at same
      omega
    rw [if_neg normal, if_neg (by decide), if_pos rfl, dif_neg nonzero]
    refine finite_congr rfl mantissa ?_
    have := full.resolve_left normal
    change (0 : Int) - (1023 + 52) + 1 = e
    omega

theorem shiftToTargetExponent_exact {m : Nat} {e : Int} (low : -1022 ≤ (m.log2 : Int) + e)
    (wide : 52 ≤ m.log2) :
    shiftToTargetExponent .binary64 m e .exact =
      (ExtendedMantissa.ofMantissaAndAccuracy m .exact >>> (m.log2 - 52),
        e + (m.log2 - 52 : Nat)) := by
  have target : Format.targetExponent .binary64 (totalExponent m e) = e + (m.log2 - 52 : Nat) := by
    change max ((m.log2 : Int) + 1 + e - 53) (-1074) = _
    omega
  unfold shiftToTargetExponent shiftToExponent
  dsimp only
  rw [target, show (e + (m.log2 - 52 : Nat) - e).toNat = m.log2 - 52 by omega]

theorem nearestEven_bounds {m : Nat} (wide : 52 ≤ m.log2) :
    2 ^ 52 ≤ nearestEven m (m.log2 - 52) ∧ nearestEven m (m.log2 - 52) ≤ 2 ^ 53 := by
  have positive : m ≠ 0 := fun zero => by rw [zero] at wide; simp at wide
  have power : 2 ^ m.log2 = 2 ^ 52 * 2 ^ (m.log2 - 52) := by
    rw [← Nat.pow_add]
    congr 1
    omega
  have below : 2 ^ m.log2 ≤ m := Nat.log2_self_le positive
  have above : m < 2 ^ (m.log2 + 1) := Nat.lt_log2_self
  have quotientLow : 2 ^ 52 ≤ m / 2 ^ (m.log2 - 52) :=
    (Nat.le_div_iff_mul_le (by positivity)).mpr (power ▸ below)
  have quotientHigh : m / 2 ^ (m.log2 - 52) < 2 ^ 53 := by
    rw [Nat.div_lt_iff_lt_mul (by positivity)]
    calc m < 2 ^ (m.log2 + 1) := above
      _ = 2 ^ 53 * 2 ^ (m.log2 - 52) := by rw [Nat.pow_succ, power]; omega
  have roundedLow := le_nearestEven m (m.log2 - 52)
  have roundedHigh := nearestEven_le m (m.log2 - 52)
  omega

/-- A rounded mantissa, which may have become one bit too long, with its exponent. -/
def carried (s : Sign) (r : Nat) (e : Int) : UnpackedFloat :=
  let shifted := shiftToTargetExponent .binary64 r e .exact
  if zero : shifted.1.mantissa = 0 then .zero s
  else .finite s shifted.1.mantissa shifted.2 (Nat.pos_of_ne_zero zero)

theorem roundWithAccuracy_eq_carried (s : Sign) {m : Nat} {e : Int} (wide : 52 ≤ m.log2)
    (low : -1022 ≤ (m.log2 : Int) + e) :
    roundWithAccuracy .binary64 s m e .exact =
      carried s (nearestEven m (m.log2 - 52)) (e + (m.log2 - 52 : Nat)) := by
  rw [← roundedMantissa_shiftRight]
  unfold roundWithAccuracy
  rw [shiftToTargetExponent_exact low wide]
  rfl

theorem carried_eq_finite {s : Sign} {r n : Nat} {e f : Int} (positive : 0 < n)
    (shifted : shiftToTargetExponent .binary64 r e .exact =
      (ExtendedMantissa.ofMantissaAndAccuracy r .exact >>> (r.log2 - 52), f))
    (mantissa : (ExtendedMantissa.ofMantissaAndAccuracy r .exact >>> (r.log2 - 52)).mantissa = n) :
    carried s r e = .finite s n f positive := by
  unfold carried
  dsimp only
  rw [dif_neg (by rw [shifted]; exact mantissa ▸ Nat.ne_of_gt positive)]
  exact finite_congr rfl (by rw [shifted, mantissa]) (by rw [shifted])

/-- A number whose mantissa fills 53 bits is rounded to its 53 leading bits. -/
theorem roundWithAccuracy_exact (s : Sign) {m : Nat} {e : Int} (wide : 52 ≤ m.log2)
    (low : -1022 ≤ (m.log2 : Int) + e) :
    ∃ (r : Nat) (f : Int) (positive : 0 < r),
      roundWithAccuracy .binary64 s m e .exact = .finite s r f positive ∧
      2 ^ 52 ≤ r ∧ r < 2 ^ 53 ∧ m.log2 + e - 52 ≤ f ∧ f ≤ m.log2 + e - 51 ∧
      (f + 1074) * 2 ^ 52 + r =
        ((m.log2 : Int) + e + 1022) * 2 ^ 52 + nearestEven m (m.log2 - 52) := by
  obtain ⟨bottom, top⟩ := nearestEven_bounds wide
  rw [roundWithAccuracy_eq_carried s wide low]
  generalize nearestEven m (m.log2 - 52) = r at bottom top
  rcases Nat.lt_or_eq_of_le top with fits | carries
  · have width : r.log2 = 52 := by
      have lower := Nat.log2_lt (n := r) (k := 52) (by omega)
      have upper := Nat.log2_lt (n := r) (k := 53) (by omega)
      omega
    have shifted := shiftToTargetExponent_exact (m := r) (e := e + (m.log2 - 52 : Nat))
      (by omega) (by omega)
    have same : carried s r (e + (m.log2 - 52 : Nat)) = .finite s r _ (by omega) :=
      carried_eq_finite _ shifted (by rw [width]; rfl)
    exact ⟨r, _, by omega, same, bottom, fits, by omega, by omega, by omega⟩
  · subst carries
    have width : (2 ^ 53 : Nat).log2 = 53 := by decide
    have shifted := shiftToTargetExponent_exact (m := 2 ^ 53) (e := e + (m.log2 - 52 : Nat))
      (by omega) (by omega)
    have half : carried s (2 ^ 53) (e + (m.log2 - 52 : Nat)) = .finite s (2 ^ 52) _ (by decide) :=
      carried_eq_finite _ shifted (by rw [width]; decide)
    exact ⟨2 ^ 52, _, by decide, half, by decide, by decide, by omega, by omega, by omega⟩

end RecordQuery.Double
