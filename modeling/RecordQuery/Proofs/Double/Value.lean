import RecordQuery.Proofs.Double.Scientific

namespace RecordQuery.Double

open Float.Model Float.Model.UnpackedFloat

/-- The number that a finite shape stands for. -/
def Shape.toRat : Shape → ℚ
  | .finite negative mantissa exponent =>
    if negative then -(mantissa * 2 ^ exponent) else mantissa * 2 ^ exponent
  | _ => 0

/-- The number that a finite double is. -/
def toRat (x : Float) : ℚ :=
  (shape x).toRat

section

variable {m n : ℕ} {e f : ℤ} {a b : Bool}

/-- Places without a sign are ordered as the numbers they belong to. -/
theorem magnitude_lt_of_place_lt (first : (Shape.finite false m e).Canonical)
    (second : (Shape.finite false n f).Canonical)
    (less : (e + 1074) * 2 ^ 52 + m < (f + 1074) * 2 ^ 52 + n) :
    (m : ℚ) * 2 ^ e < n * 2 ^ f := by
  cases first with
  | finite _ mBound eLeast _ mFull =>
    cases second with
    | finite _ nBound fLeast _ nFull =>
      rcases Int.lt_trichotomy e f with below | rfl | above
      · have full : 2 ^ 52 ≤ n := by omega
        calc (m : ℚ) * 2 ^ e < (2 ^ 53 : ℕ) * 2 ^ e := by
              exact mul_lt_mul_of_pos_right (by exact_mod_cast mBound) (by positivity)
          _ = (2 ^ 52 : ℕ) * 2 ^ (e + 1) := by
              rw [zpow_add_one₀ two_ne_zero]
              push_cast
              ring
          _ ≤ (2 ^ 52 : ℕ) * 2 ^ f := by
              have power : (2 : ℚ) ^ (e + 1) ≤ 2 ^ f := zpow_le_zpow_right₀ one_le_two below
              exact mul_le_mul_of_nonneg_left power (Nat.cast_nonneg _)
          _ ≤ n * 2 ^ f := by
              exact mul_le_mul_of_nonneg_right (by exact_mod_cast full) (by positivity)
      · exact mul_lt_mul_of_pos_right (by exact_mod_cast (by omega : m < n)) (by positivity)
      · omega

theorem magnitude_le_iff (first : (Shape.finite false m e).Canonical)
    (second : (Shape.finite false n f).Canonical) :
    (m : ℚ) * 2 ^ e ≤ n * 2 ^ f ↔ (e + 1074) * 2 ^ 52 + m ≤ (f + 1074) * 2 ^ 52 + n := by
  constructor
  · intro le
    by_contra above
    exact absurd (magnitude_lt_of_place_lt second first (not_le.mp above)) (not_lt.mpr le)
  · intro le
    rcases le.lt_or_eq with less | same
    · exact (magnitude_lt_of_place_lt first second less).le
    · -- the mantissa takes 52 bits behind its leading one, so a place tells the two parts apart
      have parts : e = f ∧ m = n := by
        cases first with
        | finite _ mBound eLeast _ mFull =>
          cases second with
          | finite _ nBound fLeast _ nFull => omega
      rw [parts.1, parts.2]

/-- Without a sign only zero has the place zero. -/
theorem magnitude_nonpos_iff (shape : (Shape.finite false m e).Canonical) :
    (m : ℚ) * 2 ^ e ≤ 0 ↔ (e + 1074) * 2 ^ 52 + m ≤ 0 := by
  have zero : (Shape.finite false 0 (-1074)).Canonical :=
    .finite false (by decide) (by decide) (by decide) (Or.inr rfl)
  simpa using magnitude_le_iff shape zero

theorem Shape.Canonical.place_nonneg (shape : (Shape.finite false m e).Canonical) :
    0 ≤ (e + 1074) * 2 ^ 52 + m := by
  cases shape with
  | finite _ _ least _ _ => omega

/-- Finite shapes are ordered by their places as by the numbers they stand for. -/
theorem place_le_iff (first : (Shape.finite a m e).Canonical)
    (second : (Shape.finite b n f).Canonical) :
    (Shape.finite a m e).place ≤ (Shape.finite b n f).place ↔
      (Shape.finite a m e).toRat ≤ (Shape.finite b n f).toRat := by
  have mNonneg : (0 : ℚ) ≤ m * 2 ^ e := by positivity
  have nNonneg : (0 : ℚ) ≤ n * 2 ^ f := by positivity
  have mPlace := first.unsigned.place_nonneg
  have nPlace := second.unsigned.place_nonneg
  cases a <;> cases b <;>
    simp only [Shape.place, Shape.toRat, signOf, Sign.apply, if_true, if_false, Bool.false_eq_true]
  · exact (magnitude_le_iff first second).symm
  · -- a number with no sign is at most one with a sign only where both are zero
    have mZero := magnitude_nonpos_iff first.unsigned
    have nZero := magnitude_nonpos_iff second.unsigned
    constructor
    · intro le
      have left := mZero.mpr (by omega)
      have right := nZero.mpr (by omega)
      linarith
    · intro le
      have left := mZero.mp (by linarith)
      have right := nZero.mp (by linarith)
      omega
  · exact ⟨fun _ => by linarith, fun _ => by omega⟩
  · rw [neg_le_neg_iff, neg_le_neg_iff]
    exact (magnitude_le_iff second.unsigned first.unsigned).symm

end

theorem le_iff_place_le {x y : Float} (first : shape x ≠ .nan) (second : shape y ≠ .nan) :
    x ≤ y ↔ place x ≤ place y := by
  have order := compare?_eq_some first second
  rw [compare?_eq_unpacked] at order
  change decide (x.toModel ≤ y.toModel) = true ↔ _
  rw [decide_eq_true_iff]
  change (x.toModel.unpack.compare y.toModel.unpack).any (·.isLE) = true ↔ _
  rw [order]
  exact Std.isLE_compare

/-- Finite doubles are ordered as the numbers that they are. -/
theorem le_iff {x y : Float} (first : isFinite x = true) (second : isFinite y = true) :
    x ≤ y ↔ toRat x ≤ toRat y := by
  obtain ⟨a, m, e, xParts⟩ := exists_shape first
  obtain ⟨b, n, f, yParts⟩ := exists_shape second
  have xNumber : shape x ≠ .nan := by rw [xParts]; exact nofun
  have yNumber : shape y ≠ .nan := by rw [yParts]; exact nofun
  rw [le_iff_place_le xNumber yNumber, ← (shape_canonical xNumber).2,
    ← (shape_canonical yNumber).2, toRat, toRat, xParts, yParts]
  exact place_le_iff (canonical_of_finite xParts) (canonical_of_finite yParts)

section

variable {negative : Bool} {m : ℕ} {e : ℤ}

/-- The bits of a finite shape give a double of that shape. -/
theorem shape_ofBits (canonical : (Shape.finite negative m e).Canonical) (positive : 0 < m)
    {bits : UInt64} (same : bits.toNat = (if negative = true then 2 ^ 63 else 0) +
      if m < 2 ^ 52 then m else m - 2 ^ 52 + 2 ^ 52 * (e + 1075).toNat) :
    shape (Float.ofBits bits) = .finite negative m e := by
  have parts := shape_pack canonical positive
  obtain rfl := UInt64.toNat_inj.mp (same.trans (bits_of_finite parts).symm)
  have unpacked := unpack_toModel (.ofModel (Float.Model.pack
    (.finite (signOf negative) m e positive)))
  rw [parts, unpacked_pos negative e positive] at unpacked
  change shape (.ofModel (Float.Model.pack (Float.Model.unpack _))) = _
  rw [unpacked]
  exact parts

/-- The mantissa of a double that is put together from its parts is shifted up, and the double is
the number that the parts stand for. -/
theorem shape_ofParts (negative : Bool) (bound : m < 2 ^ 53) (least : -1074 ≤ e) (most : e ≤ 971) :
    ∃ k f, shape (ofParts negative m e) = .finite negative k f ∧ (k : ℚ) * 2 ^ f = m * 2 ^ e := by
  rw [ofParts]
  generalize chosen : min (52 - m.log2) (e + 1074).toNat = shift
  rcases Nat.eq_zero_or_pos m with rfl | positive
  · refine ⟨0, -1074, ?_, by simp⟩
    simp only [Nat.zero_mul]
    rw [if_pos (by decide)]
    cases negative <;> decide
  have narrow : m.log2 < 53 := (Nat.log2_lt positive.ne').mpr bound
  have log := log2_scaled shift positive
  have scaled : 0 < m * 2 ^ shift := by positivity
  have fits : m * 2 ^ shift < 2 ^ 53 := (Nat.log2_lt scaled.ne').mp (by omega)
  have full : 2 ^ 52 ≤ m * 2 ^ shift ∨ e - shift = -1074 := by
    rcases Nat.lt_or_ge (e + 1074).toNat (52 - m.log2) with low | high
    · exact Or.inr (by omega)
    · exact Or.inl ((Nat.le_log2 scaled.ne').mp (by omega))
  refine ⟨m * 2 ^ shift, e - shift, ?_, ?_⟩
  · refine shape_ofBits (.finite negative fits (by omega) (by omega) full) scaled ?_
    simp only [Nat.pow_eq]
    rw [UInt64.toNat_ofNat']
    split <;> split <;> omega
  · rw [sub_eq_neg_add, zpow_add₀ two_ne_zero, ← mul_assoc, scaled_mul_zpow]

end

end RecordQuery.Double
