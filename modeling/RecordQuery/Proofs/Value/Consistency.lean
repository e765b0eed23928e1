import RecordQuery.Operator
import RecordQuery.Proofs.Double.Reading
import RecordQuery.Proofs.Value.Preorder
import RecordQuery.Proofs.Value.Symmetry

namespace RecordQuery

namespace Number

theorem isProper_ofDigits (negative : Bool) (whole fraction : List Char) (exponent : Int) :
    (float (Double.ofDigits negative whole fraction exponent)).IsProper :=
  Double.shape_ofDigits_ne_nan negative whole fraction exponent

theorem isProper_of_ofUnsigned? {negative : Bool} {body : List Char} {n : Number}
    (read : ofUnsigned? negative body = some n) : n.IsProper := by
  have exponents {whole fraction : List Char} {exponent : Option Int}
      (read : (exponent.map fun e => float (Double.ofDigits negative whole fraction e)) = some n) :
      n.IsProper := by
    obtain ⟨e, -, rfl⟩ := Option.map_eq_some_iff.mp read
    exact isProper_ofDigits _ _ _ _
  unfold ofUnsigned? at read
  dsimp only at read
  split at read
  · cases read
  split at read
  · split at read
    · cases read
      trivial
    · cases read
      exact isProper_ofDigits _ _ _ _
  · split at read
    · cases read
      exact isProper_ofDigits _ _ _ _
    · cases read
  · exact exponents read
  · split at read
    · exact exponents read
    · cases read

/-- A number that a text denotes is no NaN. -/
theorem isProper_of_ofText? {s : String} {n : Number} (read : ofText? s = some n) :
    n.IsProper := by
  unfold ofText? ofChars? at read
  split at read <;> exact isProper_of_ofUnsigned? read

theorem order_self (n : Number) : n.order n = .eq := by
  cases n <;> exact Std.ReflOrd.compare_self

theorem compare?_self {n : Number} (proper : n.IsProper) : n.compare? n = some .eq := by
  rw [compare?_eq_order proper proper, order_self]

end Number

namespace Value

theorem plainOrder?_numbers {a b : Value} {x y : Number} (first : a.number? = some x)
    (second : b.number? = some y) : a.plainOrder? b = x.compare? y := by
  rw [plainOrder?, first, second]

theorem textOrder?_eq_iff {s t : String} : textOrder? (.text s) (.text t) = some .eq ↔ s = t := by
  rw [textOrder?, Option.some.injEq, compareTexts, Text.compareChars_eq_iff, String.toList_inj]

theorem scalarEq_of_not_number {a b : Value} (noNumber : a.number? = none ∨ b.number? = none) :
    a.scalarEq b = true ↔ textOrder? a b = some .eq := by
  unfold scalarEq
  split
  · rename_i first second
    rcases noNumber with missing | missing
    · cases missing.symm.trans first
    · cases missing.symm.trans second
  · split
    · rw [textOrder?_eq_iff]
      exact beq_iff_eq
    · rename_i apart
      refine iff_of_false Bool.false_ne_true fun same => ?_
      unfold textOrder? at same
      split at same
      · exact apart _ _ rfl rfl
      · cases same

/-- Scalars are loosely equal when neither goes before the other. -/
theorem scalarEq_iff {a b : Value} : a.scalarEq b = true ↔ a.plainOrder? b = some .eq := by
  cases first : a.number? with
  | none =>
    rw [plainOrder?_none (.inl first)]
    exact scalarEq_of_not_number (.inl first)
  | some x =>
    cases second : b.number? with
    | none =>
      rw [plainOrder?_none (.inr second)]
      exact scalarEq_of_not_number (.inr second)
    | some y =>
      unfold scalarEq
      rw [plainOrder?_numbers first second, first, second]
      exact beq_iff_eq

/-- Values that are ordered by number or as texts are scalars. -/
theorem looseEq_eq_scalarEq {a b : Value} {order : Ordering}
    (ordered : a.plainOrder? b = some order) : a.looseEq b = a.scalarEq b := by
  cases b with
  | null =>
    rw [plainOrder?_none (Or.inr rfl)] at ordered
    cases a <;> cases ordered
  | bool =>
    rw [plainOrder?_none (Or.inr rfl)] at ordered
    cases a <;> cases ordered
  | _ => cases a <;> first | rfl | cases ordered

/-- Of two values that conditions compare, the ones that are loosely equal are side by side. -/
theorem looseEq_iff_of_compare? {a b : Value} {order : Ordering}
    (comparable : a.compare? b = some order) : a.looseEq b = true ↔ order = .eq := by
  by_cases bools : a.rank = 1 ∧ b.rank = 1
  · obtain ⟨a, rfl⟩ := eq_bool_of_rank bools.1
    obtain ⟨b, rfl⟩ := eq_bool_of_rank bools.2
    obtain rfl := Option.some.inj comparable
    revert a b
    decide
  · rw [compare?_eq_plainOrder? bools] at comparable
    rw [looseEq_eq_scalarEq comparable, scalarEq_iff, comparable, Option.some.injEq]

theorem scalarEq_text (s : String) : scalarEq (.text s) (.text s) = true := by
  rw [scalarEq_iff]
  cases number : (text s).number? with
  | none => rw [plainOrder?_none (.inl number), textOrder?_eq_iff]
  | some n =>
    rw [plainOrder?_numbers number number,
      Number.compare?_self (Number.isProper_of_ofText? number)]

mutual

/-- Values that are strictly equal are loosely equal. -/
theorem looseEq_of_strictEq {a b : Value} (same : a.strictEq b = true) : a.looseEq b = true := by
  cases a with
  | null => cases b <;> first | rfl | cases same
  | bool a =>
    cases b with
    | bool b => exact same
    | _ => cases same
  | int a =>
    cases b with
    | int b =>
      obtain rfl := beq_iff_eq.mp same
      exact (scalarEq_iff (a := .int a) (b := .int a)).mpr (Number.compare?_self (n := .int a) trivial)
    | _ => cases same
  | float a =>
    cases b with
    | float b => exact (scalarEq_iff (a := .float a) (b := .float b)).mpr (Double.beq_iff_compare?.mp same)
    | _ => cases same
  | text a =>
    cases b with
    | text b =>
      obtain rfl := beq_iff_eq.mp same
      exact scalarEq_text a
    | _ => cases same
  | array as =>
    cases b with
    | array bs => exact looseEqItems_of_strictEqItems same
    | _ => cases same
  | record as =>
    cases b with
    | record bs =>
      obtain ⟨lengths, fields⟩ := Bool.and_eq_true_iff.mp same
      exact Bool.and_eq_true_iff.mpr ⟨lengths, looseEqFields_of_strictEqFields fields⟩
    | _ => cases same

theorem looseEqItems_of_strictEqItems {as bs : List Value} (same : strictEqItems as bs = true) :
    looseEqItems as bs = true := by
  cases as with
  | nil => cases bs <;> first | rfl | cases same
  | cons a as =>
    cases bs with
    | nil => cases same
    | cons b bs =>
      obtain ⟨first, later⟩ := Bool.and_eq_true_iff.mp same
      exact Bool.and_eq_true_iff.mpr
        ⟨looseEq_of_strictEq first, looseEqItems_of_strictEqItems later⟩

theorem looseEqFields_of_strictEqFields {fields others : List (String × Value)}
    (same : strictEqFields fields others = true) : looseEqFields fields others = true := by
  cases fields with
  | nil => rfl
  | cons field rest =>
    obtain ⟨key, v⟩ := field
    rw [strictEqFields, Bool.and_eq_true] at same
    rw [looseEqFields, Bool.and_eq_true]
    refine ⟨?_, looseEqFields_of_strictEqFields same.2⟩
    have first := same.1
    split at first
    · exact looseEq_of_strictEq first
    · cases first

end

end Value

namespace Operator

section

variable {a b : Value}

/-- What the comparisons say of two values that are ordered. -/
theorem apply_of_compare? {order : Ordering} (comparable : a.compare? b = some order) :
    less.apply a b = (order == .lt) ∧ equal.apply a b = (order == .eq) ∧
      greater.apply a b = (order == .gt) ∧ lessOrEqual.apply a b = (order != .gt) ∧
      greaterOrEqual.apply a b = (order != .lt) := by
  have loose : a.looseEq b = (order == .eq) := by
    rw [Bool.eq_iff_iff, Value.looseEq_iff_of_compare? comparable, beq_iff_eq]
  simp only [apply, comparable, loose]
  cases order <;> decide

theorem apply_of_not_compare? (apart : a.compare? b = none) :
    ∀ op ∈ [less, lessOrEqual, greater, greaterOrEqual], op.apply a b = false := by
  simp [apply, apart]

/-- Exchanging two values turns the order comparisons round. -/
theorem apply_exchanged (a b : Value) :
    less.apply a b = greater.apply b a ∧ lessOrEqual.apply a b = greaterOrEqual.apply b a := by
  simp only [apply, Value.compare?_swap a b]
  rcases a.compare? b with _ | _ | _ | _ <;> decide

/-- The comparison that asks for an order. -/
def ofOrder : Ordering → Operator
  | .lt => less
  | .eq => equal
  | .gt => greater

theorem apply_iff_of_compare? {order : Ordering} (comparable : a.compare? b = some order)
    {op : Operator} (member : op ∈ [less, equal, greater]) :
    op.apply a b = true ↔ op = ofOrder order := by
  obtain ⟨isLess, isEqual, isGreater, -, -⟩ := apply_of_compare? comparable
  simp only [List.mem_cons, List.not_mem_nil, or_false] at member
  rcases member with rfl | rfl | rfl
  · rw [isLess]
    cases order <;> decide
  · rw [isEqual]
    cases order <;> decide
  · rw [isGreater]
    cases order <;> decide

/-- Of two values that are ordered exactly one of three comparisons holds. -/
theorem existsUnique_apply (comparable : a.compare? b ≠ none) :
    ∃! op, op ∈ [less, equal, greater] ∧ op.apply a b = true := by
  obtain ⟨order, found⟩ := Option.ne_none_iff_exists'.mp comparable
  have member : ofOrder order ∈ [less, equal, greater] := by cases order <;> decide
  refine ⟨ofOrder order, ⟨member, (apply_iff_of_compare? found member).mpr rfl⟩, ?_⟩
  rintro op ⟨among, holds⟩
  exact (apply_iff_of_compare? found among).mp holds

end

/-- The comparisons form one family. Loose equality is symmetric and follows from strict equality,
and exchanging two values turns the order comparisons round. Of two values that are ordered at all
exactly one of "less", "equal" and "greater" holds, and the weak comparisons are the strict ones
or equality; of two that are not ordered no order comparison holds. -/
theorem apply_consistent {a b : Value} (first : a.KeysApart) (second : b.KeysApart) :
    equal.apply a b = equal.apply b a ∧
      (strictEqual.apply a b = true → equal.apply a b = true) ∧
      less.apply a b = greater.apply b a ∧
      lessOrEqual.apply a b = greaterOrEqual.apply b a ∧
      (a.compare? b ≠ none →
        (∃! op, op ∈ [less, equal, greater] ∧ op.apply a b = true) ∧
        lessOrEqual.apply a b = (less.apply a b || equal.apply a b) ∧
        greaterOrEqual.apply a b = (greater.apply a b || equal.apply a b)) ∧
      (a.compare? b = none →
        ∀ op ∈ [less, lessOrEqual, greater, greaterOrEqual], op.apply a b = false) := by
  obtain ⟨turned, weakTurned⟩ := apply_exchanged a b
  refine ⟨Value.looseEq_comm first second, Value.looseEq_of_strictEq, turned, weakTurned,
    fun comparable => ⟨existsUnique_apply comparable, ?_⟩, apply_of_not_compare?⟩
  obtain ⟨order, found⟩ := Option.ne_none_iff_exists'.mp comparable
  obtain ⟨isLess, isEqual, isGreater, isLessOrEqual, isGreaterOrEqual⟩ := apply_of_compare? found
  rw [isLess, isEqual, isGreater, isLessOrEqual, isGreaterOrEqual]
  cases order <;> decide

theorem apply_consistent_mixed :
    let a : Value := .record [("x", .int 1), ("y", .array [.text "2.0", .null])]
    let b : Value := .record [("y", .array [.int 2, .text ""]), ("x", .float 1.0)]
    a.KeysApart ∧ b.KeysApart ∧ equal.apply a b = true ∧ equal.apply b a = true ∧
      (Value.int 3).KeysApart ∧ (Value.text "10").KeysApart ∧
      (Value.int 3).compare? (.text "10") ≠ none ∧
      ∃! op, op ∈ [less, equal, greater] ∧ op.apply (.int 3) (.text "10") = true := by
  intro a b
  have first : a.KeysApart := by
    refine .record (by decide) ?_
    simp only [List.forall_mem_cons, List.not_mem_nil, false_imp_iff, implies_true, and_true]
    refine ⟨.int 1, .array ?_⟩
    simp only [List.forall_mem_cons, List.not_mem_nil, false_imp_iff, implies_true, and_true]
    exact ⟨.text "2.0", .null⟩
  have second : b.KeysApart := by
    refine .record (by decide) ?_
    simp only [List.forall_mem_cons, List.not_mem_nil, false_imp_iff, implies_true, and_true]
    refine ⟨.array ?_, .float 1.0⟩
    simp only [List.forall_mem_cons, List.not_mem_nil, false_imp_iff, implies_true, and_true]
    exact ⟨.int 2, .text ""⟩
  have holds : equal.apply a b = true := by decide +kernel
  have comparable : (Value.int 3).compare? (.text "10") ≠ none := by decide
  have family := apply_consistent (Value.KeysApart.int 3) (.text "10")
  exact ⟨first, second, holds, (apply_consistent first second).1 ▸ holds, .int 3, .text "10",
    comparable, (family.2.2.2.2.1 comparable).1⟩

end Operator

end RecordQuery
