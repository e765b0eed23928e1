import RecordQuery.Proofs.Double.Rounding

namespace RecordQuery.Double

open Float.Model Float.Model.UnpackedFloat

theorem number_of_unpack {x : Float} {s : Sign} {m : Nat} {e : Int} {positive : 0 < m}
    (unpacked : x.toModel.unpack = .finite s m e positive) :
    shape x ≠ .nan ∧ place x = s.apply ((e + 1074) * 2 ^ 52 + m) := by
  rw [unpack_toModel] at unpacked
  have number : shape x ≠ .nan := fun nan => by rw [nan] at unpacked; cases unpacked
  refine ⟨number, ?_⟩
  rw [← (shape_canonical number).2]
  generalize shape x = shape at unpacked
  cases shape with
  | nan => cases unpacked
  | infinite negative => cases unpacked
  | finite negative mantissa exponent =>
    rcases Nat.eq_zero_or_pos mantissa with rfl | nonzero
    · cases unpacked
    · rw [unpacked_pos negative exponent nonzero] at unpacked
      cases unpacked
      rfl

theorem log2_scaled {n : Nat} (k : Nat) (positive : 0 < n) : (n * 2 ^ k).log2 = n.log2 + k := by
  have scaled : n * 2 ^ k ≠ 0 := by positivity
  rw [Nat.log2_eq_iff scaled]
  have low := Nat.log2_self_le (Nat.ne_of_gt positive)
  have high := Nat.lt_log2_self (n := n)
  constructor
  · rw [Nat.pow_add]
    exact Nat.mul_le_mul_right _ low
  · rw [show n.log2 + k + 1 = n.log2 + 1 + k by omega, Nat.pow_add]
    exact Nat.mul_lt_mul_of_pos_right high (by positivity)

/-- The place of the double nearest to a natural number that is not zero. -/
def naturalPlace (n : Nat) : Nat :=
  (n.log2 + 1022) * 2 ^ 52 + nearestEven (n * 2 ^ 104) (n.log2 + 52)

/-- A double that stands for a natural number rounded, up to its sign. -/
def StandsFor (n : Nat) (s : Sign) (f : UnpackedFloat) : Prop :=
  ∃ (r : Nat) (e : Int) (positive : 0 < r), f = .finite s r e positive ∧
    2 ^ 52 ≤ r ∧ r < 2 ^ 53 ∧ -1074 ≤ e ∧ e ≤ 971 ∧ (e + 1074) * 2 ^ 52 + r = naturalPlace n

theorem roundWithAccuracy_standsFor (s : Sign) {n k : Nat} (positive : 0 < n) (bound : n < 2 ^ 64)
    (wide : 52 ≤ n.log2 + k) (narrow : k ≤ 104) :
    StandsFor n s (roundWithAccuracy .binary64 s (n * 2 ^ k) (-k) .exact) := by
  have log := log2_scaled k positive
  have most : n.log2 < 64 := (Nat.log2_lt (Nat.ne_of_gt positive)).mpr bound
  obtain ⟨r, e, nonzero, rounded, low, high, eLow, eHigh, place⟩ :=
    roundWithAccuracy_exact s (m := n * 2 ^ k) (e := -k) (by omega) (by omega)
  refine ⟨r, e, nonzero, rounded, low, high, by omega, by omega, ?_⟩
  have scaled := nearestEven_scale (n * 2 ^ k) (n.log2 + k - 52) (104 - k)
  rw [Nat.mul_assoc, ← Nat.pow_add, show k + (104 - k) = 104 by omega,
    show n.log2 + k - 52 + (104 - k) = n.log2 + 52 by omega] at scaled
  rw [log] at place
  rw [place, naturalPlace, scaled]
  omega

theorem StandsFor.unpack_pack {n : Nat} {s : Sign} {f : UnpackedFloat} (stands : StandsFor n s f) :
    UnpackedFloat.unpack .binary64 (UnpackedFloat.pack .binary64 f) = f := by
  obtain ⟨r, e, positive, rfl, low, high, least, most, -⟩ := stands
  exact Double.unpack_pack positive high least most (Or.inl low)

theorem ofNat_large {n : Nat} (large : 2 ^ 53 ≤ n) : Float.ofNat n =
    .ofModel (Float.Model.pack
      (roundWithAccuracy .binary64 .positive (n * 2 ^ 53) (-(53 : Nat)) .exact)) := by
  change Float.ofScientific n false 0 = _
  unfold Float.ofScientific
  rw [dif_neg (by omega)]
  change Float.ofModel (Float.Model.pack (UnpackedFloat.ofScientific .binary64 n 0)) = _
  unfold UnpackedFloat.ofScientific
  have tiny : ¬ (0 : Int) < -((2 ^ 11 : Int) + (n.log2 : Int)) := by omega
  rw [dif_neg (by omega), if_neg (by decide), if_neg tiny, if_pos (by decide)]
  dsimp only [UnpackedFloat.mul]
  rw [Nat.shiftLeft_eq, show (10 : Nat) ^ (0 : Int).toNat = 1 from rfl, Nat.mul_one]
  rfl

theorem ofNat_small {n : Nat} (small : n < 2 ^ 53) :
    Float.ofNat n = n.toUInt64.toFloat * Float.ofBits 0x3FF0000000000000 := by
  change Float.ofScientific n false 0 = _
  unfold Float.ofScientific
  rw [dif_pos ⟨small, by decide⟩]
  rfl

theorem unpack_one : (Float.ofBits 0x3FF0000000000000).toModel.unpack =
    .finite .positive (2 ^ 52) (-52) (by decide) := by
  rw [unpack_toModel]
  have shape : shape (Float.ofBits 0x3FF0000000000000) = .finite false (2 ^ 52) (-52) := by decide
  rw [shape]
  rfl

theorem toFloat_eq_rounded {n : Nat} (positive : 0 < n) (small : n < 2 ^ 53) :
    n.toUInt64.toFloat = .ofModel (Float.Model.pack (roundWithAccuracy .binary64 .positive
      (n * 2 ^ (52 - n.log2)) (-(52 - n.log2 : Nat)) .exact)) := by
  have most : n.log2 < 53 := (Nat.log2_lt (Nat.ne_of_gt positive)).mpr small
  have word : n.toUInt64.toNat = n := by
    change n % 2 ^ 64 = n
    omega
  have target : Format.targetExponent .binary64 (totalExponent n 0) = -(52 - n.log2 : Nat) := by
    change max ((n.log2 : Int) + 1 + 0 - 53) (-1074) = _
    omega
  change Float.ofModel (Float.Model.pack
    (UnpackedFloat.normalize .binary64 n.toUInt64.toNat 0 .positive)) = _
  rw [word]
  unfold UnpackedFloat.normalize
  rw [Std.compare_eq_gt.mpr (show (0 : Int) < n by omega)]
  simp only [UnpackedFloat.round, Int.toNat_natCast, target, decreaseExponent]
  rw [show (0 - -((52 - n.log2 : Nat) : Int)).toNat = 52 - n.log2 by omega, Nat.shiftLeft_eq,
    Int.zero_sub]

/-- A natural number of at most 53 bits keeps its mantissa. -/
theorem unpack_toFloat {n : Nat} (positive : 0 < n) (small : n < 2 ^ 53) :
    n.toUInt64.toFloat.toModel.unpack =
      .finite .positive (n * 2 ^ (52 - n.log2)) (-(52 - n.log2 : Nat))
        (Nat.mul_pos positive (Nat.two_pow_pos _)) := by
  have most : n.log2 < 53 := (Nat.log2_lt (Nat.ne_of_gt positive)).mpr small
  have log := log2_scaled (52 - n.log2) positive
  rw [show n.log2 + (52 - n.log2) = 52 by omega] at log
  have scaled : n * 2 ^ (52 - n.log2) ≠ 0 := by positivity
  have full : 2 ^ 52 ≤ n * 2 ^ (52 - n.log2) := by
    have := Nat.log2_self_le scaled
    rwa [log] at this
  have fits : n * 2 ^ (52 - n.log2) < 2 ^ 53 := by
    have := Nat.lt_log2_self (n := n * 2 ^ (52 - n.log2))
    rwa [log] at this
  obtain ⟨r, e, nonzero, rounded, low, high, -, -, place⟩ := roundWithAccuracy_exact .positive
    (m := n * 2 ^ (52 - n.log2)) (e := -(52 - n.log2 : Nat)) (by omega) (by omega)
  have whole : nearestEven (n * 2 ^ (52 - n.log2)) 0 = n * 2 ^ (52 - n.log2) := by
    simp [nearestEven, Nat.mod_one]
  rw [log, show 52 - 52 = 0 from rfl, whole] at place
  rw [toFloat_eq_rounded positive small, rounded]
  refine (unpack_pack nonzero high (by omega) (by omega) (Or.inl low)).trans ?_
  exact finite_congr rfl (by omega) (by omega)

theorem unpack_ofNat {n : Nat} (positive : 0 < n) (bound : n < 2 ^ 64) :
    StandsFor n .positive (Float.ofNat n).toModel.unpack := by
  rcases Nat.lt_or_ge n (2 ^ 53) with small | large
  · have most : n.log2 < 53 := (Nat.log2_lt (Nat.ne_of_gt positive)).mpr small
    have stands := roundWithAccuracy_standsFor .positive (k := 104 - n.log2) positive bound
      (by omega) (by omega)
    rw [ofNat_small small]
    change StandsFor n .positive (UnpackedFloat.unpack .binary64 (UnpackedFloat.pack .binary64
      (UnpackedFloat.mul .binary64 n.toUInt64.toFloat.toModel.unpack _)))
    rw [unpack_one, unpack_toFloat positive small]
    have product : n * 2 ^ (52 - n.log2) * 2 ^ 52 = n * 2 ^ (104 - n.log2) := by
      rw [Nat.mul_assoc, ← Nat.pow_add]
      congr 2
      omega
    have exponent : -((52 - n.log2 : Nat) : Int) + -52 = -(104 - n.log2 : Nat) := by omega
    change StandsFor n .positive (UnpackedFloat.unpack .binary64 (UnpackedFloat.pack .binary64
      (roundWithAccuracy .binary64 .positive (n * 2 ^ (52 - n.log2) * 2 ^ 52)
        (-((52 - n.log2 : Nat) : Int) + -52) .exact)))
    rw [product, exponent, stands.unpack_pack]
    exact stands
  · rw [ofNat_large large]
    have least : 53 ≤ n.log2 := (Nat.le_log2 (Nat.ne_of_gt positive)).mpr large
    have stands := roundWithAccuracy_standsFor .positive (k := 53) positive bound
      (by omega) (by omega)
    change StandsFor n .positive (UnpackedFloat.unpack .binary64 (UnpackedFloat.pack .binary64 _))
    rw [stands.unpack_pack]
    exact stands

theorem naturalPlace_bounds {n : Nat} (positive : 0 < n) :
    (n.log2 + 1023) * 2 ^ 52 ≤ naturalPlace n ∧ naturalPlace n ≤ (n.log2 + 1024) * 2 ^ 52 := by
  have log := log2_scaled 104 positive
  have bounds := nearestEven_bounds (m := n * 2 ^ 104) (by omega)
  rw [log, show n.log2 + 104 - 52 = n.log2 + 52 by omega] at bounds
  unfold naturalPlace
  generalize nearestEven (n * 2 ^ 104) (n.log2 + 52) = rounded at bounds ⊢
  constructor <;> omega

theorem naturalPlace_mono {m n : Nat} (positive : 0 < m) (le : m ≤ n) :
    naturalPlace m ≤ naturalPlace n := by
  have logs : m.log2 ≤ n.log2 :=
    (Nat.le_log2 (by omega)).mpr (Nat.le_trans (Nat.log2_self_le (by omega)) le)
  rcases Nat.lt_or_eq_of_le logs with less | same
  · have first := (naturalPlace_bounds positive).2
    have second := (naturalPlace_bounds (show 0 < n by omega)).1
    omega
  · unfold naturalPlace
    rw [same]
    exact Nat.add_le_add_left (nearestEven_mono _ (Nat.mul_le_mul_right _ le)) _

/-- The place of the double nearest to an integer. -/
def integerPlace : Int → Int
  | .ofNat n => if n = 0 then 0 else naturalPlace n
  | .negSucc n => -naturalPlace (n + 1)

/-- The double nearest to a 64-bit integer is a number. -/
theorem place_ofInt {n : Int} (bound : n.natAbs < 2 ^ 64) :
    shape (Float.ofInt n) ≠ .nan ∧ place (Float.ofInt n) = integerPlace n := by
  cases n with
  | ofNat n =>
    change shape (Float.ofNat n) ≠ .nan ∧ place (Float.ofNat n) = _
    rcases Nat.eq_zero_or_pos n with rfl | positive
    · decide
    · obtain ⟨r, e, nonzero, unpacked, -, -, -, -, place⟩ := unpack_ofNat positive bound
      have found := number_of_unpack unpacked
      refine ⟨found.1, ?_⟩
      rw [found.2, integerPlace, if_neg (by omega), ← place]
      rfl
  | negSucc n =>
    obtain ⟨r, e, nonzero, unpacked, low, high, least, most, place⟩ :=
      unpack_ofNat (n := n + 1) (by omega) bound
    have negated : (-Float.ofNat (n + 1)).toModel.unpack = .finite .negative r e nonzero := by
      change UnpackedFloat.unpack .binary64 (UnpackedFloat.pack .binary64
        (UnpackedFloat.neg (Float.ofNat (n + 1)).toModel.unpack)) = _
      rw [unpacked]
      exact unpack_pack nonzero high least most (Or.inl low)
    have found := number_of_unpack negated
    refine ⟨found.1, ?_⟩
    change Double.place (-Float.ofNat (n + 1)) = _
    rw [found.2, integerPlace, ← place]
    rfl

/-- Going over to doubles keeps the order of integers, as far as it tells them apart. -/
theorem integerPlace_mono {m n : Int} (le : m ≤ n) : integerPlace m ≤ integerPlace n := by
  have above (k : Nat) : 0 ≤ integerPlace k := by
    change 0 ≤ if k = 0 then (0 : Int) else naturalPlace k
    split <;> omega
  cases m with
  | ofNat m =>
    obtain ⟨n, rfl⟩ : ∃ k : Nat, n = k :=
      Int.eq_ofNat_of_zero_le (Int.le_trans (Int.natCast_nonneg m) le)
    rcases Nat.eq_zero_or_pos m with rfl | positive
    · exact above n
    · have places := naturalPlace_mono positive (Int.ofNat_le.mp le)
      change (if m = 0 then (0 : Int) else naturalPlace m) ≤
        if n = 0 then (0 : Int) else naturalPlace n
      have more : n ≠ 0 := fun zero => by
        have := Int.ofNat_le.mp le
        omega
      rw [if_neg (by omega), if_neg more]
      exact Int.ofNat_le.mpr places
  | negSucc m =>
    cases n with
    | ofNat n =>
      have := above n
      change -(naturalPlace (m + 1) : Int) ≤ integerPlace n
      omega
    | negSucc n =>
      have places := naturalPlace_mono (m := n + 1) (n := m + 1) (by omega) (by omega)
      change -(naturalPlace (m + 1) : Int) ≤ -(naturalPlace (n + 1) : Int)
      omega

end RecordQuery.Double
