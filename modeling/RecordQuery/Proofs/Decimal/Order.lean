import RecordQuery.Proofs.Decimal.Layout
import RecordQuery.Proofs.Value.SortOrder

namespace RecordQuery

namespace Decimal

theorem isDigit_iff {c : Char} : Text.isDigit c = true ↔ 48 ≤ c.toNat ∧ c.toNat ≤ 57 := by
  rw [Text.isDigit, Bool.and_eq_true, decide_eq_true_iff, decide_eq_true_iff]
  exact Iff.rfl

theorem valueOf_cons (c : Char) (digits : List Char) :
    valueOf (c :: digits) = digitValue c * 10 ^ digits.length + valueOf digits := by
  rw [← List.singleton_append, valueOf_append]
  simp [valueOf]

theorem le_valueOf_cons (c : Char) (digits : List Char) :
    digitValue c * 10 ^ digits.length ≤ valueOf (c :: digits) :=
  valueOf_cons c digits ▸ Nat.le_add_right ..

theorem valueOf_cons_lt_succ_mul (c : Char) {digits : List Char}
    (small : valueOf digits < 10 ^ digits.length) :
    valueOf (c :: digits) < (digitValue c + 1) * 10 ^ digits.length := by
  rw [valueOf_cons, Nat.succ_mul]
  exact Nat.add_lt_add_left small _

theorem valueOf_lt {digits : List Char} (all : ∀ c ∈ digits, Text.isDigit c = true) :
    valueOf digits < 10 ^ digits.length := by
  induction digits with
  | nil => decide
  | cons c digits ih =>
    obtain ⟨digit, later⟩ := List.forall_mem_cons.mp all
    have small : digitValue c ≤ 9 := Nat.sub_le_of_le_add (isDigit_iff.mp digit).2
    calc valueOf (c :: digits)
        < (digitValue c + 1) * 10 ^ digits.length := valueOf_cons_lt_succ_mul c (ih later)
      _ ≤ 10 * 10 ^ digits.length := Nat.mul_le_mul_right _ (by omega)
      _ = 10 ^ (c :: digits).length := by rw [List.length_cons, Nat.pow_succ, Nat.mul_comm]

/-- Of two runs of one length the one with the smaller first digit is the smaller number. -/
theorem valueOf_cons_lt {c d : Char} {digits others : List Char} (first : Text.isDigit c = true)
    (all : ∀ c ∈ digits, Text.isDigit c = true) (lengths : digits.length = others.length)
    (less : c.toNat < d.toNat) : valueOf (c :: digits) < valueOf (d :: others) := by
  have smaller : digitValue c + 1 ≤ digitValue d := by
    have least := (isDigit_iff.mp first).1
    simp only [digitValue]
    omega
  calc valueOf (c :: digits)
      < (digitValue c + 1) * 10 ^ digits.length := valueOf_cons_lt_succ_mul c (valueOf_lt all)
    _ ≤ digitValue d * 10 ^ others.length := by
      rw [← lengths]
      exact Nat.mul_le_mul_right _ smaller
    _ ≤ valueOf (d :: others) := le_valueOf_cons d others

/-- Runs of one length are in the order of the numbers they denote. -/
theorem compareChars_digits {digits others : List Char}
    (all : ∀ c ∈ digits, Text.isDigit c = true) (othersAll : ∀ c ∈ others, Text.isDigit c = true)
    (lengths : digits.length = others.length) :
    Text.compareChars digits others = compare (valueOf digits) (valueOf others) := by
  induction digits generalizing others with
  | nil =>
    obtain rfl := List.length_eq_zero_iff.mp lengths.symm
    rfl
  | cons c digits ih =>
    cases others with
    | nil => cases lengths
    | cons d others =>
      obtain ⟨first, later⟩ := List.forall_mem_cons.mp all
      obtain ⟨othersFirst, othersLater⟩ := List.forall_mem_cons.mp othersAll
      have shorter : digits.length = others.length := Nat.succ.inj lengths
      rw [Text.compareChars]
      rcases Nat.lt_trichotomy c.toNat d.toNat with less | same | greater
      · rw [Std.compare_eq_lt.mpr less,
          Std.compare_eq_lt.mpr (valueOf_cons_lt first later shorter less)]
        rfl
      · obtain rfl := Char.toNat_inj.mp same
        rw [Std.ReflOrd.compare_self, Ordering.eq_then, ih later othersLater shorter, valueOf_cons,
          valueOf_cons, shorter, Nat.compare_eq_ite_lt, Nat.compare_eq_ite_lt]
        simp only [Nat.add_lt_add_iff_left]
      · rw [Std.compare_eq_gt.mpr greater,
          Std.compare_eq_gt.mpr (valueOf_cons_lt othersFirst othersLater shorter.symm greater)]
        rfl

theorem eq_of_valueOf_eq {digits others : List Char} (all : ∀ c ∈ digits, Text.isDigit c = true)
    (othersAll : ∀ c ∈ others, Text.isDigit c = true) (lengths : digits.length = others.length)
    (same : valueOf digits = valueOf others) : digits = others := by
  rw [← Text.compareChars_eq_iff, compareChars_digits all othersAll lengths, same]
  exact Std.ReflOrd.compare_self

theorem valueOf_significant (digits : List Char) :
    valueOf (Text.significant digits) = valueOf digits := by
  induction digits with
  | nil => rfl
  | cons c digits ih =>
    by_cases zero : c = '0'
    · have drop : Text.significant (c :: digits) = Text.significant digits :=
        List.dropWhile_cons_of_pos (by simp [zero])
      rw [drop, ih, valueOf_cons, zero]
      simp [digitValue]
    · exact congrArg valueOf (List.dropWhile_cons_of_neg (by simp [zero]))

theorem isDigit_of_significant {digits : List Char} (all : ∀ c ∈ digits, Text.isDigit c = true) :
    ∀ c ∈ Text.significant digits, Text.isDigit c = true :=
  fun c member => all c ((List.dropWhile_sublist _).mem member)

/-- A run without leading zeros is at least the power of ten of its length. -/
theorem le_valueOf_significant {digits rest : List Char} {c : Char}
    (all : ∀ c ∈ digits, Text.isDigit c = true) (leading : Text.significant digits = c :: rest) :
    10 ^ rest.length ≤ valueOf (Text.significant digits) := by
  have digit := isDigit_iff.mp (isDigit_of_significant all c (leading ▸ List.mem_cons_self ..))
  have nonzero : c ≠ '0' := by
    have head := List.head?_dropWhile_not (· == '0') digits
    rw [show digits.dropWhile (· == '0') = c :: rest from leading] at head
    simpa using head
  have positive : 1 ≤ digitValue c := by
    have apart : c.toNat ≠ 48 := fun same => nonzero (Char.toNat_inj.mp same)
    simp only [digitValue]
    omega
  rw [leading]
  calc 10 ^ rest.length = 1 * 10 ^ rest.length := (Nat.one_mul _).symm
    _ ≤ digitValue c * 10 ^ rest.length := Nat.mul_le_mul_right _ positive
    _ ≤ valueOf (c :: rest) := le_valueOf_cons c rest

/-- Without leading zeros the longer run is the larger number. -/
theorem valueOf_lt_of_significant {digits others : List Char}
    (all : ∀ c ∈ digits, Text.isDigit c = true) (othersAll : ∀ c ∈ others, Text.isDigit c = true)
    (shorter : (Text.significant digits).length < (Text.significant others).length) :
    valueOf digits < valueOf others := by
  rw [← valueOf_significant digits, ← valueOf_significant others]
  cases longer : Text.significant others with
  | nil =>
    rw [longer] at shorter
    cases shorter
  | cons c rest =>
    rw [longer, List.length_cons] at shorter
    calc valueOf (Text.significant digits)
        < 10 ^ (Text.significant digits).length := valueOf_lt (isDigit_of_significant all)
      _ ≤ 10 ^ rest.length := Nat.pow_le_pow_right (by decide) (by omega)
      _ ≤ _ := longer ▸ le_valueOf_significant othersAll longer

/-- Runs of digits are ordered by the numbers they denote, and runs of one number by their
lengths. -/
theorem compareRuns_eq {digits others : List Char} (all : ∀ c ∈ digits, Text.isDigit c = true)
    (othersAll : ∀ c ∈ others, Text.isDigit c = true) :
    Text.compareRuns digits others =
      (compare (valueOf digits) (valueOf others)).then (compare digits.length others.length) := by
  rw [Text.compareRuns]
  rcases Nat.lt_trichotomy (Text.significant digits).length (Text.significant others).length with
    shorter | same | longer
  · rw [Std.compare_eq_lt.mpr shorter,
      Std.compare_eq_lt.mpr (valueOf_lt_of_significant all othersAll shorter)]
    rfl
  · rw [same, Std.ReflOrd.compare_self, Ordering.eq_then,
      compareChars_digits (isDigit_of_significant all) (isDigit_of_significant othersAll) same,
      valueOf_significant, valueOf_significant]
  · rw [Std.compare_eq_gt.mpr longer,
      Std.compare_eq_gt.mpr (valueOf_lt_of_significant othersAll all longer)]
    rfl

end Decimal

end RecordQuery
