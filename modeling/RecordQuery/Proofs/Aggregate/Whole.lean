import RecordQuery.Proofs.Aggregate.Incremental
import RecordQuery.Proofs.Canonical.Literal

namespace RecordQuery

/-- Whether an integer is one of 64 bits. -/
def FitsInt64 (n : Int) : Prop :=
  Int64.minValue.toInt ≤ n ∧ n ≤ Int64.maxValue.toInt

instance (n : Int) : Decidable (FitsInt64 n) :=
  inferInstanceAs (Decidable (_ ∧ _))

theorem fitsInt64_toInt (n : Int64) : FitsInt64 n.toInt :=
  ⟨n.minValue_le_toInt, n.toInt_le⟩

theorem exists_toInt_eq {m : Int} : (∃ n : Int64, n.toInt = m) ↔ FitsInt64 m := by
  constructor
  · rintro ⟨n, rfl⟩
    exact fitsInt64_toInt n
  · intro fits
    exact ⟨Int64.ofInt m, int64?_eq_some.mp (if_pos fits)⟩

/-- The integer that digits denote, with a minus in front of them or without. -/
def Text.integer? (cs : List Char) : Option Int :=
  match cs with
  | '-' :: digits => if Decimal.isNatural digits then some (-Decimal.valueOf digits) else none
  | digits => if Decimal.isNatural digits then some (Decimal.valueOf digits) else none

namespace Value

/-- What a value adds to a sum of integers. Null adds nothing, and a text the integer that it
denotes, with blanks around it allowed. Other values have no place in such a sum. -/
def amount? : Value → Option Int
  | .null => some 0
  | .int n => some n.toInt
  | .text s => (Text.integer? (Text.trimChars s.toList)).filter fun n => FitsInt64 n
  | _ => none

/-- What a value adds, and nothing where it has no place. -/
def amount (v : Value) : Int :=
  v.amount?.getD 0

/-- A text that denotes an integer of 64 bits is read as one. -/
theorem number?_of_amount? {s : String} {m : Int} (adds : (text s).amount? = some m) :
    ∃ n : Int64, (text s).number? = some (.int n) ∧ n.toInt = m := by
  rw [amount?, Option.filter_eq_some_iff, decide_eq_true_eq] at adds
  obtain ⟨denotes, fits⟩ := adds
  obtain ⟨n, rfl⟩ := exists_toInt_eq.mpr fits
  refine ⟨n, ?_, rfl⟩
  rw [number?, Number.ofText?, Number.ofChars?]
  generalize Text.trimChars s.toList = cs at denotes
  by_cases minus : ∃ digits, cs = '-' :: digits
  · obtain ⟨digits, rfl⟩ := minus
    rw [Text.integer?] at denotes
    split at denotes
    · rename_i natural
      exact Number.ofUnsigned?_natural natural (Option.some.inj denotes).symm
    · cases denotes
  · have unsigned (digits : List Char) (same : cs = '-' :: digits) : False :=
      minus ⟨digits, same⟩
    rw [Text.integer?.eq_2 cs unsigned] at denotes
    split at denotes
    · rename_i natural
      split
      · exact absurd rfl (unsigned _)
      · exact Number.ofUnsigned?_natural natural (Option.some.inj denotes).symm
    · cases denotes

/-- A value of a sum of integers is null, or it is read as the integer that it adds. -/
theorem number_of_amount? {v : Value} {m : Int} (kind : FunctionKind)
    (adds : v.amount? = some m) :
    (Scalar.number kind v = .ok none ∧ m = 0) ∨
      ∃ n : Int64, Scalar.number kind v = .ok (some (.int n)) ∧ n.toInt = m := by
  cases v with
  | null => exact .inl ⟨rfl, (Option.some.inj adds).symm⟩
  | int n => exact .inr ⟨n, rfl, Option.some.inj adds⟩
  | text s =>
    obtain ⟨n, read, denotes⟩ := number?_of_amount? adds
    refine .inr ⟨n, ?_, denotes⟩
    rw [Scalar.number, read]
    rfl
  | _ => cases adds

end Value

/-- Whether every sum on the way from a start over all amounts, in their order, is an integer of 64
bits. -/
def SumsFit (start : Int) (amounts : List Int) : Prop :=
  ∀ front ∈ amounts.inits, FitsInt64 (start + front.sum)

instance (start : Int) (amounts : List Int) : Decidable (SumsFit start amounts) :=
  inferInstanceAs (Decidable (∀ front ∈ amounts.inits, _))

namespace SumsFit

variable {sum : Int} {amounts : List Int}

theorem start (fit : SumsFit sum amounts) : FitsInt64 sum := by
  have first := fit [] ((List.mem_inits _ _).mpr List.nil_prefix)
  rwa [List.sum_nil, Int.add_zero] at first

theorem final (fit : SumsFit sum amounts) : FitsInt64 (sum + amounts.sum) :=
  fit amounts ((List.mem_inits _ _).mpr List.prefix_rfl)

end SumsFit

theorem sumsFit_nil (start : Int) : SumsFit start [] ↔ FitsInt64 start := by
  simp [SumsFit]

theorem sumsFit_cons (start amount : Int) (rest : List Int) :
    SumsFit start (amount :: rest) ↔ FitsInt64 start ∧ SumsFit (start + amount) rest := by
  simp only [SumsFit, List.inits_cons, List.forall_mem_cons, List.sum_nil, Int.add_zero,
    List.forall_mem_map, List.sum_cons, Int.add_assoc]

/-- A sum of integers is one as long as every sum on the way is. -/
theorem Aggregate.wholeSum?_numbers (kind : FunctionKind) {values : List Value}
    (whole : ∀ v ∈ values, v.amount?.isSome) :
    ∃ ns, numbers kind values = .ok ns ∧ ∀ sum total : Int64,
      wholeSum? sum ns = some total ↔
        SumsFit sum.toInt (values.map Value.amount) ∧
          total.toInt = sum.toInt + (values.map Value.amount).sum := by
  induction values with
  | nil =>
    refine ⟨[], rfl, fun sum total => ?_⟩
    rw [wholeSum?, Option.some.injEq, List.map_nil, List.sum_nil, Int.add_zero, sumsFit_nil,
      and_iff_right (fitsInt64_toInt sum), Int64.toInt_inj, eq_comm]
  | cons v rest ih =>
    obtain ⟨first, later⟩ := List.forall_mem_cons.mp whole
    obtain ⟨ns, read, sums⟩ := ih later
    obtain ⟨m, adds⟩ := Option.isSome_iff_exists.mp first
    have amount : v.amount = m := by rw [Value.amount, adds, Option.getD_some]
    rcases Value.number_of_amount? kind adds with ⟨absent, rfl⟩ | ⟨n, int, rfl⟩
    · refine ⟨ns, ?_, fun sum total => ?_⟩
      · rw [numbers, absent]
        exact read
      · rw [sums, List.map_cons, List.sum_cons, amount, sumsFit_cons, Int.add_zero, Int.zero_add,
          and_iff_right (fitsInt64_toInt sum)]
    · refine ⟨.int n :: ns, ?_, fun sum total => ?_⟩
      · rw [numbers, int]
        simp only [bind, Except.bind, read]
        rfl
      · rw [wholeSum?, Option.bind_eq_some_iff, List.map_cons, List.sum_cons, amount, sumsFit_cons,
          and_iff_right (fitsInt64_toInt sum)]
        simp only [addInt64?, int64?_eq_some, sums]
        constructor
        · rintro ⟨next, step, fit, final⟩
          rw [step] at fit final
          exact ⟨fit, by rw [final, Int.add_assoc]⟩
        · rintro ⟨fit, final⟩
          obtain ⟨next, step⟩ := exists_toInt_eq.mpr fit.start
          exact ⟨next, step, step ▸ fit, by rw [final, step, Int.add_assoc]⟩

/-- What a row adds to a sum of integers over a field. -/
def Record.amountAt (path : FieldPath) (r : Record) : Int :=
  (r.valueAt path).amount

namespace Aggregate

variable {call : Call} {path : FieldPath} {rows others : List Record}

/-- Both ways to add up the numbers of a field, once the numbers are read. -/
theorem sum_of_numbers (sum : call.kind = .sum) (input : AggregateInput.ofCall call = .field path)
    {ns : List Number} (read : numbers .sum (rows.map (Record.valueAt · path)) = .ok ns) :
    ofRows call rows = .ok (Aggregate.sum ns) ∧
      (Accumulator.ofRows call rows).map Accumulator.result =
        .ok ((Tally.sum (wholeSum? 0 ns) (totalFrom 0.0 ns)).result
          (Accumulator.separatorOf call)) := by
  have values : rows.map (AggregateInput.ofCall call).valueOf =
      rows.map (Record.valueAt · path) := by rw [input]; rfl
  constructor
  · rw [ofRows_eq, ofValues, sum, values]
    simp only [read]
    rfl
  · rw [Accumulator.ofRows_eq, sum, values, Tally.start, Tally.addAll_sum, read,
      ← Tally.foldl_addWhole]
    rfl

/-- A sum of integers is exact in every order of the rows in which all sums on the way are integers
of 64 bits. In any other order it is a double. -/
theorem sum_integers (sum : call.kind = .sum) (input : AggregateInput.ofCall call = .field path)
    (whole : ∀ r ∈ rows, (r.valueAt path).amount?.isSome) (perm : others.Perm rows) :
    (SumsFit 0 (others.map (Record.amountAt path)) →
      ∃ total : Int64, total.toInt = (rows.map (Record.amountAt path)).sum ∧
        ofRows call others = .ok (.int total) ∧
        (Accumulator.ofRows call others).map Accumulator.result = .ok (.int total)) ∧
    (¬ SumsFit 0 (others.map (Record.amountAt path)) →
      ∃ x y, ofRows call others = .ok (.float x) ∧
        (Accumulator.ofRows call others).map Accumulator.result = .ok (.float y)) := by
  have readable : ∀ v ∈ others.map (Record.valueAt · path), v.amount?.isSome :=
    List.forall_mem_map.mpr fun r member => whole r (perm.subset member)
  obtain ⟨ns, read, sums⟩ := wholeSum?_numbers .sum readable
  obtain ⟨bulk, gathered⟩ := sum_of_numbers sum input read
  have total := (perm.map (Record.amountAt path)).sum_eq
  have amounts : (others.map (Record.valueAt · path)).map Value.amount =
      others.map (Record.amountAt path) := List.map_map
  have exactly (n : Int64) : wholeSum? 0 ns = some n ↔
      SumsFit 0 (others.map (Record.amountAt path)) ∧
        n.toInt = (rows.map (Record.amountAt path)).sum := by
    have zero : (0 : Int64).toInt = 0 := rfl
    rw [sums, amounts, zero, Int.zero_add, total]
  rw [bulk, gathered, Aggregate.sum]
  cases found : wholeSum? 0 ns with
  | some n =>
    obtain ⟨fit, value⟩ := (exactly n).mp found
    exact ⟨fun _ => ⟨n, value, rfl, rfl⟩, fun other => absurd fit other⟩
  | none =>
    refine ⟨fun fit => ?_, fun _ => ⟨_, _, rfl, rfl⟩⟩
    have final := fit.final
    rw [Int.zero_add, total] at final
    obtain ⟨n, value⟩ := exists_toInt_eq.mpr final
    rw [(exactly n).mpr ⟨fit, value⟩] at found
    cases found

/-- Integers, a null and texts, in an order in which no sum on the way overflows. -/
theorem sum_integers_of_texts :
    let path : FieldPath := ⟨"x", [.key "x"]⟩
    let call : Call := ⟨.sum, [.field path]⟩
    let rows : List Record := [⟨[("x", .int Int64.maxValue)]⟩, ⟨[("x", .text " 1 ")]⟩,
      ⟨[("x", .null)]⟩, ⟨[("x", .text "-1")]⟩]
    ((∀ r ∈ rows, (r.valueAt path).amount?.isSome) ∧ rows.reverse.Perm rows ∧
      SumsFit 0 (rows.reverse.map (Record.amountAt path))) ∧
    ∃ total : Int64, total.toInt = (rows.map (Record.amountAt path)).sum ∧
      ofRows call rows.reverse = .ok (.int total) ∧
      (Accumulator.ofRows call rows.reverse).map Accumulator.result = .ok (.int total) := by
  intro path call rows
  have whole : ∀ r ∈ rows, (r.valueAt path).amount?.isSome := by decide +kernel
  have fit : SumsFit 0 (rows.reverse.map (Record.amountAt path)) := by decide +kernel
  exact ⟨⟨whole, rows.reverse_perm, fit⟩, (sum_integers rfl rfl whole rows.reverse_perm).1 fit⟩

/-- The total is an integer of 64 bits, and the sum of the first two rows is none. -/
theorem not_sum_integers :
    let path : FieldPath := ⟨"x", [.key "x"]⟩
    let call : Call := ⟨.sum, [.field path]⟩
    let rows : List Record :=
      [⟨[("x", .int Int64.maxValue)]⟩, ⟨[("x", .int 1)]⟩, ⟨[("x", .int (-1))]⟩]
    (∀ r ∈ rows, (r.valueAt path).amount?.isSome) ∧
      (rows.map (Record.amountAt path)).sum = Int64.maxValue.toInt ∧
      ofRows call rows ≠ .ok (.int Int64.maxValue) := by
  intro path call rows
  refine ⟨by decide +kernel, by decide +kernel, ?_⟩
  have read : numbers .sum (rows.map (Record.valueAt · path)) =
      .ok [.int Int64.maxValue, .int 1, .int (-1)] := rfl
  rw [(sum_of_numbers rfl rfl read).1]
  have lost : wholeSum? 0 [.int Int64.maxValue, .int 1, .int (-1)] = none := by decide +kernel
  rw [Aggregate.sum, lost]
  intro same
  cases same

end Aggregate

end RecordQuery
