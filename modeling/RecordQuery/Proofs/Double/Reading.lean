import RecordQuery.Decimal.Reading
import RecordQuery.Proofs.Double.Rounding

namespace RecordQuery.Double

open Float.Model Float.Model.UnpackedFloat

theorem shape_ne_nan_of_unpack {x : Float} (number : x.toModel.unpack ≠ .notANumber) :
    shape x ≠ .nan := by
  intro nan
  rw [unpack_toModel, nan] at number
  exact number rfl

theorem unpack_ne_nan_of_shape {x : Float} (number : shape x ≠ .nan) :
    x.toModel.unpack ≠ .notANumber := by
  rw [unpack_toModel]
  cases parts : shape x with
  | nan => exact absurd parts number
  | infinite negative => exact UnpackedFloat.noConfusion
  | finite negative mantissa exponent =>
    rw [Shape.unpacked]
    by_cases positive : 0 < mantissa
    · rw [dif_pos positive]
      exact UnpackedFloat.noConfusion
    · rw [dif_neg positive]
      exact UnpackedFloat.noConfusion

/-- Bits whose exponent is not the special one are no NaN. -/
theorem unpack_packComponents_ne_nan (s : Sign) {exponent : BitVec 11} (ordinary : exponent ≠ -1#11)
    (mantissa : BitVec 52) :
    UnpackedFloat.unpack .binary64 (packComponents .binary64 s exponent mantissa) ≠
      .notANumber := by
  rw [unpack_packComponents, if_neg ordinary]
  by_cases least : exponent = 0#11
  · rw [if_pos least]
    by_cases zero : mantissa = 0#52
    · rw [dif_pos zero]
      exact UnpackedFloat.noConfusion
    · rw [dif_neg zero]
      exact UnpackedFloat.noConfusion
  · rw [if_neg least]
    exact UnpackedFloat.noConfusion

theorem unpack_packedInfinity (s : Sign) :
    UnpackedFloat.unpack .binary64 (packedInfinity .binary64 s) = .infinity s := by
  rw [packedInfinity]
  exact unpack_packComponents s _ _

/-- Nothing but a NaN is packed as one. -/
theorem unpack_pack_ne_nan {f : UnpackedFloat} (number : f ≠ .notANumber) :
    UnpackedFloat.unpack .binary64 (UnpackedFloat.pack .binary64 f) ≠ .notANumber := by
  cases f with
  | notANumber => exact absurd rfl number
  | infinity s =>
    rw [show UnpackedFloat.pack .binary64 (.infinity s) = packedInfinity .binary64 s from rfl,
      unpack_packedInfinity]
    exact UnpackedFloat.noConfusion
  | zero s => exact unpack_packComponents_ne_nan s (by decide) _
  | finite s m e positive =>
    change UnpackedFloat.unpack .binary64
      (if 2 ^ 11 ≤ (e + 1023 + 52).toNat + 1 then packedInfinity .binary64 s
      else if m.log2 + 1 = 53 then
        packComponents .binary64 s (BitVec.ofNat 11 (e + 1023 + 52).toNat) (BitVec.ofNat 52 m)
      else packComponents .binary64 s 0#11 (BitVec.ofNat 52 m)) ≠ _
    split
    · rw [unpack_packedInfinity]
      exact UnpackedFloat.noConfusion
    · rename_i small
      split
      · refine unpack_packComponents_ne_nan s (fun same => ?_) _
        rw [← BitVec.toNat_inj, BitVec.toNat_ofNat] at same
        change (e + 1023 + 52).toNat % 2 ^ 11 = 2047 at same
        omega
      · exact unpack_packComponents_ne_nan s (by decide) _

theorem shape_pack_ne_nan {f : UnpackedFloat} (number : f ≠ .notANumber) :
    shape (.ofModel (Float.Model.pack f)) ≠ .nan :=
  shape_ne_nan_of_unpack (unpack_pack_ne_nan number)

theorem carried_ne_nan (s : Sign) (r : Nat) (e : Int) : carried s r e ≠ .notANumber := by
  unfold carried
  by_cases zero : (shiftToTargetExponent .binary64 r e .exact).1.mantissa = 0
  · rw [dif_pos zero]
    exact UnpackedFloat.noConfusion
  · rw [dif_neg zero]
    exact UnpackedFloat.noConfusion

theorem roundWithAccuracy_ne_nan (s : Sign) (m : Nat) (e : Int) (accuracy : Accuracy) :
    roundWithAccuracy .binary64 s m e accuracy ≠ .notANumber := by
  unfold roundWithAccuracy
  exact carried_ne_nan s _ _

section

variable {f : UnpackedFloat} (number : f ≠ .notANumber) (s : Sign) (m : Nat) (e : Int)
  (positive : 0 < m)

include number

theorem mul_finite_ne_nan :
    UnpackedFloat.mul .binary64 f (.finite s m e positive) ≠ .notANumber := by
  cases f with
  | notANumber => exact absurd rfl number
  | finite => exact roundWithAccuracy_ne_nan _ _ _ _
  | _ => exact UnpackedFloat.noConfusion

theorem div_finite_ne_nan :
    UnpackedFloat.div .binary64 f (.finite s m e positive) ≠ .notANumber := by
  cases f with
  | notANumber => exact absurd rfl number
  | finite => exact roundWithAccuracy_ne_nan _ _ _ _
  | _ => exact UnpackedFloat.noConfusion

end

theorem ofScientific_ne_nan (m : Nat) (e : Int) :
    UnpackedFloat.ofScientific .binary64 m e ≠ .notANumber := by
  unfold UnpackedFloat.ofScientific
  by_cases zero : m = 0
  · rw [dif_pos zero]
    exact UnpackedFloat.noConfusion
  rw [dif_neg zero]
  by_cases huge : e > 2 ^ Format.exponentBits .binary64
  · rw [if_pos huge]
    exact UnpackedFloat.noConfusion
  rw [if_neg huge]
  by_cases tiny : e < -((2 ^ Format.exponentBits .binary64 : Int) + m.log2)
  · rw [if_pos tiny]
    exact UnpackedFloat.noConfusion
  rw [if_neg tiny]
  by_cases whole : 0 ≤ e
  · rw [if_pos whole]
    exact mul_finite_ne_nan UnpackedFloat.noConfusion _ _ _ _
  · rw [if_neg whole]
    exact div_finite_ne_nan UnpackedFloat.noConfusion _ _ _ _

/-- The double of a word is no NaN. -/
theorem unpack_toFloat_ne_nan (n : UInt64) : n.toFloat.toModel.unpack ≠ .notANumber := by
  refine unpack_pack_ne_nan (f := UnpackedFloat.normalize .binary64 n.toNat 0 .positive) ?_
  unfold UnpackedFloat.normalize
  split
  · exact roundWithAccuracy_ne_nan _ _ _ _
  · exact UnpackedFloat.noConfusion
  · exact roundWithAccuracy_ne_nan _ _ _ _

/-- Whether a double is finite and not zero. -/
def isNonzero (x : Float) : Bool :=
  match shape x with
  | .finite _ mantissa _ => 0 < mantissa
  | _ => false

theorem unpack_of_isNonzero {x : Float} (nonzero : isNonzero x = true) :
    ∃ s m e positive, x.toModel.unpack = .finite s m e positive := by
  unfold isNonzero at nonzero
  cases parts : shape x with
  | finite negative mantissa exponent =>
    rw [parts] at nonzero
    have positive : 0 < mantissa := of_decide_eq_true nonzero
    exact ⟨_, _, _, positive, by rw [unpack_toModel, parts, unpacked_pos]⟩
  | _ =>
    rw [parts] at nonzero
    cases nonzero

theorem isNonzero_powersOfTen :
    ∀ e : Fin Float.exactlyRepresentablePowersOfTen.size,
      isNonzero Float.exactlyRepresentablePowersOfTen[e] = true := by
  decide

/-- What a decimal in the notation of science denotes is no NaN. -/
theorem shape_ofScientific_ne_nan (m : Nat) (negative : Bool) (e : Nat) :
    shape (Float.ofScientific m negative e) ≠ .nan := by
  unfold Float.ofScientific
  split
  · rename_i small
    have bound : e < Float.exactlyRepresentablePowersOfTen.size := Nat.lt_succ_of_le small.2
    obtain ⟨s, n, f, positive, power⟩ :=
      unpack_of_isNonzero (isNonzero_powersOfTen ⟨e, bound⟩)
    rw [Fin.getElem_fin] at power
    have word := unpack_toFloat_ne_nan m.toUInt64
    dsimp only
    split
    · refine shape_pack_ne_nan (f := UnpackedFloat.div .binary64 m.toUInt64.toFloat.toModel.unpack
        Float.exactlyRepresentablePowersOfTen[e].toModel.unpack) ?_
      rw [power]
      exact div_finite_ne_nan word _ _ _ _
    · refine shape_pack_ne_nan (f := UnpackedFloat.mul .binary64 m.toUInt64.toFloat.toModel.unpack
        Float.exactlyRepresentablePowersOfTen[e].toModel.unpack) ?_
      rw [power]
      exact mul_finite_ne_nan word _ _ _ _
  · exact shape_pack_ne_nan (ofScientific_ne_nan m _)

theorem shape_neg_ne_nan {x : Float} (number : shape x ≠ .nan) : shape (-x) ≠ .nan := by
  refine shape_pack_ne_nan (f := x.toModel.unpack.neg) ?_
  have unpacked := unpack_ne_nan_of_shape number
  cases parts : x.toModel.unpack with
  | notANumber => exact absurd parts unpacked
  | _ => exact UnpackedFloat.noConfusion

theorem shape_ofDecimal_ne_nan (mantissa : Nat) (exponent : Int) :
    shape (ofDecimal mantissa exponent) ≠ .nan := by
  unfold ofDecimal
  split
  · decide
  dsimp only
  split
  · decide
  split
  · decide
  · exact shape_ofScientific_ne_nan _ _ _

/-- What is read from digits is no NaN. -/
theorem shape_ofDigits_ne_nan (negative : Bool) (whole fraction : List Char) (exponent : Int) :
    shape (ofDigits negative whole fraction exponent) ≠ .nan := by
  unfold ofDigits
  dsimp only
  split
  · exact shape_neg_ne_nan (shape_ofDecimal_ne_nan _ _)
  · exact shape_ofDecimal_ne_nan _ _

end RecordQuery.Double
