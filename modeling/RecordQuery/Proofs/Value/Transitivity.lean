import RecordQuery.Proofs.Value.Consistency

namespace RecordQuery

namespace Number

variable {x y z : Number}

theorem isProper_of_compare? {order : Ordering} (ordered : x.compare? y = some order) :
    x.IsProper ∧ y.IsProper := by
  have doubles (ordered : Double.compare? x.toFloat y.toFloat = some order) :
      Double.shape x.toFloat ≠ .nan ∧ Double.shape y.toFloat ≠ .nan := by
    refine ⟨fun nan => ?_, fun nan => ?_⟩
    · rw [Double.compare?_eq_none (Or.inl nan)] at ordered
      cases ordered
    · rw [Double.compare?_eq_none (Or.inr nan)] at ordered
      cases ordered
  cases x with
  | int m =>
    cases y with
    | int n => exact ⟨trivial, trivial⟩
    | float r => exact ⟨trivial, (doubles ordered).2⟩
  | float r =>
    cases y with
    | int n => exact ⟨(doubles ordered).1, trivial⟩
    | float s => exact doubles ordered

theorem place_le_of_order_lt (less : x.order y = .lt) : x.place ≤ y.place := by
  cases x with
  | int m =>
    cases y with
    | int n => exact Double.integerPlace_mono (Int.le_of_lt (Std.compare_eq_lt.mp less))
    | float r => exact Int.le_of_lt (Std.compare_eq_lt.mp less)
  | float r => exact Int.le_of_lt (Std.compare_eq_lt.mp less)

/-- Rounding integers to doubles may put them side by side, but never the wrong way round. -/
theorem order_lt_trans (first : x.order y = .lt) (second : y.order z = .lt) :
    x.order z = .lt := by
  have left := place_le_of_order_lt first
  have right := place_le_of_order_lt second
  cases x <;> cases y <;> cases z <;> simp only [order, Std.compare_eq_lt] at first second ⊢ <;>
    try omega
  case int.float.int m r n =>
    by_contra notLess
    have back : (int n).place ≤ (int m).place := Double.integerPlace_mono (Int.not_lt.mp notLess)
    omega

theorem compare?_lt_trans (first : x.compare? y = some .lt) (second : y.compare? z = some .lt) :
    x.compare? z = some .lt := by
  obtain ⟨xProper, yProper⟩ := isProper_of_compare? first
  obtain ⟨-, zProper⟩ := isProper_of_compare? second
  rw [compare?_eq_order xProper yProper, Option.some.injEq] at first
  rw [compare?_eq_order yProper zProper, Option.some.injEq] at second
  rw [compare?_eq_order xProper zProper, order_lt_trans first second]

end Number

theorem Text.compareChars_lt_trans {as bs cs : List Char} (first : compareChars as bs = .lt)
    (second : compareChars bs cs = .lt) : compareChars as cs = .lt := by
  have line := compareChars_onLine as bs cs
  rw [first, second] at line
  exact line

namespace Value

/-- Whether a value is a number or a text that denotes one. -/
def isNumeric (v : Value) : Bool :=
  v.number?.isSome

variable {a b c : Value}

theorem isNumeric_of_number? {n : Number} (number : a.number? = some n) : a.isNumeric = true := by
  rw [isNumeric, number, Option.isSome_some]

theorem isNumeric_eq_false : a.isNumeric = false ↔ a.number? = none := by
  rw [isNumeric, Option.isSome_eq_false_iff, Option.isNone_iff_eq_none]

theorem compare?_numbers {x y : Number} (first : a.number? = some x) (second : b.number? = some y) :
    a.compare? b = x.compare? y := by
  have bools : ¬ (a.rank = 1 ∧ b.rank = 1) := fun both => by
    obtain ⟨c, rfl⟩ := eq_bool_of_rank both.1
    cases first
  rw [compare?_eq_plainOrder? bools, plainOrder?_numbers first second]

theorem compare?_texts {s t : String}
    (plain : (text s).isNumeric = false ∨ (text t).isNumeric = false) :
    (text s).compare? (text t) = some (compareTexts s t) := by
  have bools : ¬ ((text s).rank = 1 ∧ (text t).rank = 1) := fun both => by
    obtain ⟨c, same⟩ := eq_bool_of_rank both.1
    cases same
  rw [isNumeric_eq_false, isNumeric_eq_false] at plain
  rw [compare?_eq_plainOrder? bools, plainOrder?_none plain]
  rfl

/-- Values are ordered as booleans, as numbers if both are numeric, or else as texts. -/
theorem compare?_cases {order : Ordering} (ordered : a.compare? b = some order) :
    (∃ x y, a = .bool x ∧ b = .bool y) ∨
      (∃ x y, a.number? = some x ∧ b.number? = some y ∧ x.compare? y = some order) ∨
      ((a.isNumeric = false ∨ b.isNumeric = false) ∧
        ∃ s t, a = .text s ∧ b = .text t ∧ compareTexts s t = order) := by
  by_cases bools : a.rank = 1 ∧ b.rank = 1
  · obtain ⟨x, rfl⟩ := eq_bool_of_rank bools.1
    obtain ⟨y, rfl⟩ := eq_bool_of_rank bools.2
    exact Or.inl ⟨x, y, rfl, rfl⟩
  rw [compare?_eq_plainOrder? bools] at ordered
  by_cases plain : a.number? = none ∨ b.number? = none
  · rw [plainOrder?_none plain] at ordered
    refine Or.inr (Or.inr ⟨?_, ?_⟩)
    · rwa [isNumeric_eq_false, isNumeric_eq_false]
    · cases a with
      | text s =>
        cases b with
        | text t => exact ⟨s, t, rfl, rfl, Option.some.inj ordered⟩
        | _ => cases ordered
      | _ => cases ordered
  · rw [not_or] at plain
    obtain ⟨x, first⟩ := Option.ne_none_iff_exists'.mp plain.1
    obtain ⟨y, second⟩ := Option.ne_none_iff_exists'.mp plain.2
    rw [plainOrder?_numbers first second] at ordered
    exact Or.inr (Or.inl ⟨x, y, first, second, ordered⟩)

/-- Where two of three values are numeric, the third one is, unless they are just two. -/
theorem isNumeric_of_two (alike : [a, b, c].countP isNumeric ≠ 2) :
    (a.isNumeric = true → b.isNumeric = true → c.isNumeric = true) ∧
      (b.isNumeric = true → c.isNumeric = true → a.isNumeric = true) ∧
      (a.isNumeric = true → c.isNumeric = true → b.isNumeric = true) := by
  simp only [List.countP_cons, List.countP_nil] at alike
  revert alike
  cases a.isNumeric <;> cases b.isNumeric <;> cases c.isNumeric <;> decide

theorem not_both_isNumeric (plain : a.isNumeric = false ∨ b.isNumeric = false) :
    ¬ (a.isNumeric = true ∧ b.isNumeric = true) := by
  rintro ⟨first, second⟩
  rcases plain with other | other
  · cases other.symm.trans first
  · cases other.symm.trans second

/-- The order of conditions carries over among values that are compared in one way: unless two of
the three are numeric and one is not. -/
theorem less_trans (alike : [a, b, c].countP isNumeric ≠ 2)
    (first : a.compare? b = some .lt) (second : b.compare? c = some .lt) :
    a.compare? c = some .lt ∧ Operator.less.apply a c = true := by
  suffices carried : a.compare? c = some .lt from
    ⟨carried, by rw [Operator.apply, carried, beq_self_eq_true]⟩
  obtain ⟨last, front, middle⟩ := isNumeric_of_two alike
  rcases compare?_cases first with
    ⟨x, y, rfl, rfl⟩ | ⟨x, y, aNumber, bNumber, less⟩ | ⟨ab, s, t, rfl, rfl, less⟩
  · rcases compare?_cases second with ⟨_, z, -, rfl⟩ | ⟨_, _, number, -⟩ | ⟨-, _, _, same, -⟩
    · revert x y z
      decide
    · cases number
    · cases same
  · have aNumeric := isNumeric_of_number? aNumber
    have bNumeric := isNumeric_of_number? bNumber
    rcases compare?_cases second with
      ⟨_, _, rfl, -⟩ | ⟨y', z, same, cNumber, later⟩ | ⟨bc, -⟩
    · cases bNumber
    · obtain rfl := Option.some.inj (bNumber.symm.trans same)
      rw [compare?_numbers aNumber cNumber, Number.compare?_lt_trans less later]
    · exact absurd ⟨bNumeric, last aNumeric bNumeric⟩ (not_both_isNumeric bc)
  · rcases compare?_cases second with
      ⟨_, _, same, -⟩ | ⟨y, z, bNumber, cNumber, -⟩ | ⟨bc, t, u, same, rfl, later⟩
    · cases same
    · have bNumeric := isNumeric_of_number? bNumber
      have aNumeric := front bNumeric (isNumeric_of_number? cNumber)
      exact absurd ⟨aNumeric, bNumeric⟩ (not_both_isNumeric ab)
    · cases same
      have ends : (text s).isNumeric = false ∨ (text u).isNumeric = false := by
        rw [← Bool.not_eq_true, ← Bool.not_eq_true, ← not_and_or]
        rintro ⟨aNumeric, cNumeric⟩
        exact not_both_isNumeric bc ⟨middle aNumeric cNumeric, cNumeric⟩
      rw [compare?_texts ends, Option.some.injEq]
      exact Text.compareChars_lt_trans less later

theorem less_trans_plain :
    [Value.text "10", .text "10a", .text "9b"].countP isNumeric ≠ 2 ∧
      (text "10").compare? (.text "10a") = some .lt ∧
      (text "10a").compare? (.text "9b") = some .lt ∧
      (text "10").compare? (.text "9b") = some .lt ∧
      Operator.less.apply (.text "10") (.text "9b") = true := by
  have alike : [Value.text "10", .text "10a", .text "9b"].countP isNumeric ≠ 2 := by decide
  have first : (text "10").compare? (.text "10a") = some .lt := by decide
  have second : (text "10a").compare? (.text "9b") = some .lt := by decide
  exact ⟨alike, first, second, less_trans alike first second⟩

/-- A text that denotes no number stands between two that do. -/
theorem not_less_trans : ¬ ∀ a b c : Value,
    a.compare? b = some .lt → b.compare? c = some .lt → a.compare? c = some .lt := by
  intro trans
  exact absurd (trans (.text "10") (.text "10a") (.text "9") (by decide) (by decide)) (by decide)

end Value

end RecordQuery
