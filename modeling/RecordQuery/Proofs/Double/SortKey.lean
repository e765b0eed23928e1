import RecordQuery.Proofs.Double.Order

namespace RecordQuery.Double

open Float.Model.UnpackedFloat

theorem shape_nan_iff (x : Float) : shape x = .nan ↔ 2047 * 2 ^ 52 < x.toBits.toNat % 2 ^ 63 := by
  have bound := x.toBits.toNat_lt
  rw [shape_eq]
  split
  · split <;> simp only [reduceCtorEq, false_iff, true_iff] <;> omega
  · split <;> simp only [reduceCtorEq, false_iff] <;> omega

/-- The place of a double in sorted results, where the NaNs lie outside the infinities. -/
def sortKey (x : Float) : Int :=
  if shape x = .nan then totalKey x else place x

theorem sortKey_number {x : Float} (number : shape x ≠ .nan) : sortKey x = place x :=
  if_neg number

theorem sortKey_nan {x : Float} (nan : shape x = .nan) : sortKey x = totalKey x :=
  if_pos nan

theorem place_bounds {x : Float} (number : shape x ≠ .nan) :
    -(2047 * 2 ^ 52) ≤ place x ∧ place x ≤ 2047 * 2 ^ 52 := by
  rw [ne_eq, shape_nan_iff] at number
  unfold place signOf
  by_cases high : 2 ^ 63 ≤ x.toBits.toNat
  · simp only [high, decide_true, Sign.apply]
    omega
  · simp only [high, decide_false, Sign.apply]
    omega

theorem totalKey_eq (x : Float) : totalKey x =
    if 2 ^ 63 ≤ x.toBits.toNat then -((x.toBits.toNat - 2 ^ 63 : Nat) : Int) - 1
    else x.toBits.toNat :=
  rfl

/-- The bits of a double order it beside a NaN as its place does. -/
theorem compare_totalKey {x y : Float} (nan : shape x = .nan) :
    compare (totalKey x) (totalKey y) = compare (sortKey x) (sortKey y) := by
  rw [sortKey_nan nan]
  by_cases number : shape y = .nan
  · rw [sortKey_nan number]
  · have bounds := place_bounds number
    rw [sortKey_number number]
    rw [shape_nan_iff] at nan number
    have xBound := x.toBits.toNat_lt
    have yBound := y.toBits.toNat_lt
    have far : totalKey x < -(2047 * 2 ^ 52) - 1 ∨ 2047 * 2 ^ 52 < totalKey x := by
      rw [totalKey_eq]
      split <;> omega
    have near : -(2047 * 2 ^ 52) - 1 ≤ totalKey y ∧ totalKey y ≤ 2047 * 2 ^ 52 := by
      rw [totalKey_eq]
      split <;> omega
    rcases far with below | above
    · rw [Std.compare_eq_lt.mpr (show totalKey x < totalKey y by omega),
        Std.compare_eq_lt.mpr (show totalKey x < place y by omega)]
    · rw [Std.compare_eq_gt.mpr (show totalKey y < totalKey x by omega),
        Std.compare_eq_gt.mpr (show place y < totalKey x by omega)]

/-- Doubles alone are sorted by one key. -/
theorem getD_compare? (x y : Float) :
    (compare? x y).getD (compare (totalKey x) (totalKey y)) = compare (sortKey x) (sortKey y) := by
  by_cases xNan : shape x = .nan
  · rw [compare?_eq_none (Or.inl xNan), Option.getD_none, compare_totalKey xNan]
  · by_cases yNan : shape y = .nan
    · rw [compare?_eq_none (Or.inr yNan), Option.getD_none, Std.OrientedOrd.eq_swap,
        compare_totalKey yNan, ← Std.OrientedOrd.eq_swap]
    · rw [compare?_eq_some xNan yNan, Option.getD_some, sortKey_number xNan, sortKey_number yNan]

end RecordQuery.Double
