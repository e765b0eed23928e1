import RecordQuery.Proofs.Double.Order

namespace RecordQuery.Double

open Float.Model Float.Model.UnpackedFloat

/-- Whether two doubles are of one value, so that zero has no sign, or both NaNs. -/
def Alike (x y : Float) : Prop :=
  compare? x y = some .eq ∨ shape x = .nan ∧ shape y = .nan

theorem Alike.refl (x : Float) : Alike x x := by
  by_cases nan : shape x = .nan
  · exact Or.inr ⟨nan, nan⟩
  · exact Or.inl (compare?_eq_eq.mpr ⟨nan, nan, rfl⟩)

theorem unpack_zero {x : Float} (number : shape x ≠ .nan) (zero : place x = 0) :
    ∃ s, x.toModel.unpack = .zero s := by
  obtain ⟨canonical, same⟩ := shape_canonical number
  rw [unpack_toModel]
  rw [zero] at same
  generalize shape x = shape at canonical same
  cases canonical with
  | infinite negative => cases negative <;> cases same
  | @finite negative mantissa exponent bound least most full =>
    have nothing : mantissa = 0 := by
      cases negative <;> simp only [Shape.place, signOf, Sign.apply] at same <;> omega
    subst nothing
    exact ⟨_, rfl⟩

/-- Doubles that are alike are the same to arithmetic, or both zeros. -/
theorem Alike.unpack {x y : Float} (alike : Alike x y) :
    x.toModel.unpack = y.toModel.unpack ∨
      ∃ s t, x.toModel.unpack = .zero s ∧ y.toModel.unpack = .zero t := by
  rcases alike with equal | ⟨xNan, yNan⟩
  · obtain ⟨xNumber, yNumber, places⟩ := compare?_eq_eq.mp equal
    by_cases zero : place x = 0
    · obtain ⟨s, first⟩ := unpack_zero xNumber zero
      obtain ⟨t, second⟩ := unpack_zero yNumber (places ▸ zero)
      exact Or.inr ⟨s, t, first, second⟩
    · exact Or.inl (by rw [eq_of_place_eq places zero])
  · exact Or.inl (by rw [unpack_toModel, unpack_toModel, xNan, yNan])

theorem add_eq_pack (x y : Float) :
    x + y = .ofModel (.pack (UnpackedFloat.add .binary64 x.toModel.unpack y.toModel.unpack)) :=
  rfl

/-- Doubles that are alike stay so when one double is added to both of them. -/
theorem Alike.add_right {x y : Float} (alike : Alike x y) (z : Float) : Alike (x + z) (y + z) := by
  rw [add_eq_pack, add_eq_pack]
  rcases alike.unpack with same | ⟨s, t, first, second⟩
  · rw [same]
    exact .refl _
  · rw [first, second]
    cases z.toModel.unpack with
    | zero sign =>
      -- Only here the sign of the zero is seen, and it decides the sign of a zero.
      have zeros (s t : Sign) :
          Alike (.ofModel (.pack (.zero s))) (.ofModel (.pack (.zero t))) := by
        cases s <;> cases t <;> exact Or.inl (by decide)
      cases s <;> cases t <;> cases sign <;> exact zeros _ _
    | _ => exact .refl _

end RecordQuery.Double
