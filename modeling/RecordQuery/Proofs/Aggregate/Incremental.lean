import RecordQuery.Proofs.Double.Addition
import RecordQuery.Proofs.FieldPath.Lenient
import RecordQuery.Proofs.Grouping.Bucket
import RecordQuery.Proofs.Value.SortOrder

namespace RecordQuery

/-- The value that an aggregate takes from a row. -/
def AggregateInput.valueOf (input : AggregateInput) (r : Record) : Value :=
  match input with
  | .rows => .bool true
  | .field path => r.valueAt path

theorem AggregateInput.value_eq (input : AggregateInput) (r : Record) :
    input.value r = .ok (input.valueOf r) := by
  cases input with
  | rows => rfl
  | field path => rw [AggregateInput.value, r.lookupPath_lenient path]; rfl

namespace Tally

/-- A tally that takes in values, one after the other. -/
def addAll (kind : FunctionKind) (tally : Tally) (values : List Value) : Except QueryError Tally :=
  values.foldlM (Tally.add kind) tally

end Tally

theorem Accumulator.foldlM_add (a : Accumulator) (rows : List Record) :
    rows.foldlM Accumulator.add a =
      (a.tally.addAll a.kind (rows.map a.input.valueOf)).map fun tally => { a with tally } := by
  induction rows generalizing a with
  | nil => rfl
  | cons r rest ih =>
    have step : a.add r =
        (a.tally.add a.kind (a.input.valueOf r)).map fun tally => { a with tally } := by
      rw [Accumulator.add, a.input.value_eq]
    rw [List.foldlM_cons, List.map_cons, Tally.addAll, List.foldlM_cons, step]
    cases a.tally.add a.kind (a.input.valueOf r) with
    | error e => rfl
    | ok tally => exact ih { a with tally }

/-- The values that are not null. -/
def presentOf (values : List Value) : List Value :=
  values.filter fun v => !v.isNull

theorem not_null_of_mem {values : List Value} {v : Value} (member : v ∈ presentOf values) :
    v.isNull = false := by
  simpa using (List.mem_filter.mp member).2

theorem Scalar.number_null {kind : FunctionKind} {v : Value} (null : v.isNull = true) :
    Scalar.number kind v = .ok none := by
  rw [Scalar.number, if_pos null]

namespace Tally

theorem add_null {kind : FunctionKind} {v : Value} (null : v.isNull = true) (tally : Tally) :
    tally.add kind v = .ok tally := by
  cases tally with
  | sum whole total => rw [add, Scalar.number_null null]; rfl
  | mean total n => rw [add, Scalar.number_null null]; rfl
  | _ => simp only [add, null, if_true]

theorem addAll_cons {kind : FunctionKind} {tally next : Tally} {v : Value}
    (step : tally.add kind v = .ok next) (rest : List Value) :
    tally.addAll kind (v :: rest) = next.addAll kind rest := by
  rw [addAll, List.foldlM_cons, step]
  rfl

/-- Null changes nothing, wherever it stands. -/
theorem addAll_present (kind : FunctionKind) (tally : Tally) (values : List Value) :
    tally.addAll kind values = tally.addAll kind (presentOf values) := by
  induction values generalizing tally with
  | nil => rfl
  | cons v rest ih =>
    cases null : v.isNull with
    | true =>
      rw [presentOf, List.filter_cons_of_neg (by simp [null]), addAll_cons (add_null null tally)]
      exact ih tally
    | false =>
      rw [presentOf, List.filter_cons_of_pos (by simp [null]), addAll, List.foldlM_cons, addAll,
        List.foldlM_cons]
      cases tally.add kind v with
      | error e => rfl
      | ok next => exact ih next

variable {kind : FunctionKind} {values : List Value}

theorem addAll_count (n : Nat) (present : ∀ v ∈ values, v.isNull = false) :
    (count n).addAll kind values = .ok (.count (n + values.length)) := by
  induction values generalizing n with
  | nil => rfl
  | cons v rest ih =>
    have first := present v (List.mem_cons_self ..)
    have step : (count n).add kind v = .ok (.count (n + 1)) := by
      simp only [add, first, Bool.false_eq_true, if_false]
    rw [addAll_cons step, ih (n + 1) fun w member => present w (List.mem_cons_of_mem _ member),
      List.length_cons, Nat.add_assoc, Nat.add_comm 1]

theorem addAll_texts (parts : List String) (present : ∀ v ∈ values, v.isNull = false) :
    (texts parts).addAll kind values = .ok (.texts (parts ++ values.map Value.toText)) := by
  induction values generalizing parts with
  | nil => rw [List.map_nil, List.append_nil]; rfl
  | cons v rest ih =>
    have first := present v (List.mem_cons_self ..)
    have step : (texts parts).add kind v = .ok (.texts (parts ++ [v.toText])) := by
      simp only [add, first, Bool.false_eq_true, if_false]
    rw [addAll_cons step, ih _ fun w member => present w (List.mem_cons_of_mem _ member),
      List.map_cons, List.append_assoc, List.singleton_append]

/-- Asking whether the new value is less is asking whether the old one is greater. -/
theorem sortOrder_turned (v best : Value) :
    (v.sortOrder best == .lt) = (best.sortOrder v == .gt) := by
  rw [Value.sortOrder_swap best v]
  cases best.sortOrder v <;> rfl

theorem addAll_least (best : Value) (present : ∀ v ∈ values, v.isNull = false) :
    (least (some best)).addAll kind values =
      .ok (.least (some (Aggregate.least (best :: values)))) := by
  induction values generalizing best with
  | nil => rfl
  | cons v rest ih =>
    have first := present v (List.mem_cons_self ..)
    have step : (least (some best)).add kind v =
        .ok (.least (some (if best.sortOrder v == .gt then v else best))) := by
      simp only [add, first, Bool.false_eq_true, if_false, sortOrder_turned]
    rw [addAll_cons step, ih _ fun w member => present w (List.mem_cons_of_mem _ member)]
    rfl

theorem addAll_greatest (best : Value) (present : ∀ v ∈ values, v.isNull = false) :
    (greatest (some best)).addAll kind values =
      .ok (.greatest (some (Aggregate.greatest (best :: values)))) := by
  induction values generalizing best with
  | nil => rfl
  | cons v rest ih =>
    have first := present v (List.mem_cons_self ..)
    have step : (greatest (some best)).add kind v =
        .ok (.greatest (some (if best.sortOrder v == .gt then best else v))) := by
      simp only [add, first, Bool.false_eq_true, if_false, sortOrder_turned]
    rw [addAll_cons step, ih _ fun w member => present w (List.mem_cons_of_mem _ member)]
    rfl

/-- Before the first value there is no least one. -/
theorem addAll_least_none (separator : String) (present : ∀ v ∈ values, v.isNull = false) :
    ((least none).addAll kind values).map (result separator) = .ok (Aggregate.least values) := by
  cases values with
  | nil => rfl
  | cons v rest =>
    have step : (least none).add kind v = .ok (.least (some v)) := by
      simp only [add, present v (List.mem_cons_self ..), Bool.false_eq_true, if_false]
    rw [addAll_cons step, addAll_least v fun w member => present w (List.mem_cons_of_mem _ member)]
    rfl

theorem addAll_greatest_none (separator : String) (present : ∀ v ∈ values, v.isNull = false) :
    ((greatest none).addAll kind values).map (result separator) =
      .ok (Aggregate.greatest values) := by
  cases values with
  | nil => rfl
  | cons v rest =>
    have step : (greatest none).add kind v = .ok (.greatest (some v)) := by
      simp only [add, present v (List.mem_cons_self ..), Bool.false_eq_true, if_false]
    rw [addAll_cons step,
      addAll_greatest v fun w member => present w (List.mem_cons_of_mem _ member)]
    rfl

theorem addAll_sum (kind : FunctionKind) (values : List Value) (whole : Option Int64)
    (total : Float) :
    (sum whole total).addAll kind values = (Aggregate.numbers kind values).map fun ns =>
      .sum (ns.foldl addWhole whole) (Aggregate.totalFrom total ns) := by
  induction values generalizing whole total with
  | nil => rfl
  | cons v rest ih =>
    rw [addAll, List.foldlM_cons, add, Aggregate.numbers]
    cases Scalar.number kind v with
    | error e => rfl
    | ok number =>
      cases number with
      | none => exact ih whole total
      | some n =>
        change (sum (addWhole whole n) (total + n.toFloat)).addAll kind rest = _
        rw [ih]
        cases Aggregate.numbers kind rest <;> rfl

theorem addAll_mean (kind : FunctionKind) (values : List Value) (total : Float) (n : Nat) :
    (mean total n).addAll kind values = (Aggregate.numbers kind values).map fun ns =>
      .mean (Aggregate.totalFrom total ns) (n + ns.length) := by
  induction values generalizing total n with
  | nil => rfl
  | cons v rest ih =>
    rw [addAll, List.foldlM_cons, add, Aggregate.numbers]
    cases Scalar.number kind v with
    | error e => rfl
    | ok number =>
      cases number with
      | none => exact ih total n
      | some x =>
        change (mean (total + x.toFloat) (n + 1)).addAll kind rest = _
        rw [ih]
        cases Aggregate.numbers kind rest with
        | error e => rfl
        | ok ns =>
          change Except.ok (mean _ (n + 1 + ns.length)) = .ok (mean _ (n + (ns.length + 1)))
          rw [Nat.add_assoc, Nat.add_comm 1]
          rfl

theorem foldl_addWhole_none (ns : List Number) : ns.foldl addWhole none = none := by
  induction ns with
  | nil => rfl
  | cons n rest ih => cases n <;> exact ih

theorem foldl_addWhole (ns : List Number) (sum : Int64) :
    ns.foldl addWhole (some sum) = Aggregate.wholeSum? sum ns := by
  induction ns generalizing sum with
  | nil => rfl
  | cons n rest ih =>
    cases n with
    | float x => exact foldl_addWhole_none rest
    | int n =>
      rw [List.foldl_cons, addWhole, Option.bind_some, Aggregate.wholeSum?]
      cases addInt64? sum n with
      | none => exact foldl_addWhole_none rest
      | some next => exact ih next

end Tally

theorem Aggregate.totalFrom_alike {x y : Float} (alike : Double.Alike x y) (ns : List Number) :
    Double.Alike (totalFrom x ns) (totalFrom y ns) := by
  induction ns generalizing x y with
  | nil => exact alike
  | cons n rest ih => exact ih (alike.add_right n.toFloat)

/-- Whether two values are the same, up to the sign of a zero where both are doubles. -/
def Value.Alike : Value → Value → Prop
  | .float x, .float y => Double.Alike x y
  | v, w => v = w

theorem Value.Alike.refl (v : Value) : v.Alike v := by
  cases v with
  | float x => exact Double.Alike.refl x
  | _ => rfl

/-- Whether two runs end with the same error, or with values that are alike. -/
def SameOutcome : Except QueryError Value → Except QueryError Value → Prop
  | .ok v, .ok w => v.Alike w
  | .error e, .error f => e = f
  | _, _ => False

theorem SameOutcome.refl (outcome : Except QueryError Value) : SameOutcome outcome outcome := by
  cases outcome with
  | error e => rfl
  | ok v => exact Value.Alike.refl v

/-- The two totals of a sum start from the two zeros. -/
theorem Tally.result_sum (separator : String) (ns : List Number) :
    ((Tally.sum (ns.foldl addWhole (some 0)) (Aggregate.totalFrom 0.0 ns)).result separator).Alike
      (Aggregate.sum ns) := by
  rw [foldl_addWhole, Aggregate.sum]
  cases Aggregate.wholeSum? 0 ns with
  | some n => rfl
  | none => exact Aggregate.totalFrom_alike (Or.inl (by decide)) ns

namespace Accumulator

/-- An aggregate over no rows yet, with the values of the rows that follow. -/
theorem ofRows_eq (call : Call) (rows : List Record) :
    (ofRows call rows).map result =
      ((Tally.start call.kind).addAll call.kind
        (rows.map (AggregateInput.ofCall call).valueOf)).map
          (Tally.result (separatorOf call)) := by
  rw [ofRows, foldlM_add]
  change (Except.map _ ((Tally.start call.kind).addAll call.kind
    (rows.map (AggregateInput.ofCall call).valueOf))).map result = _
  cases (Tally.start call.kind).addAll call.kind
    (rows.map (AggregateInput.ofCall call).valueOf) <;> rfl

end Accumulator

namespace Aggregate

theorem ofRows_eq (call : Call) (rows : List Record) :
    ofRows call rows = ofValues call (rows.map (AggregateInput.ofCall call).valueOf) := by
  rw [ofRows, mapM_ok fun r _ => (AggregateInput.ofCall call).value_eq r]
  rfl

theorem ofValues_sum {call : Call} (sum : call.kind = .sum) (values : List Value) :
    SameOutcome (((Tally.start call.kind).addAll call.kind values).map
      (Tally.result (Accumulator.separatorOf call))) (ofValues call values) := by
  rw [ofValues, sum, Tally.start, Tally.addAll_sum]
  change SameOutcome _ ((numbers .sum values).map Aggregate.sum)
  cases numbers .sum values with
  | error e => rfl
  | ok ns => exact Tally.result_sum _ ns

theorem ofValues_eq {call : Call} (aggregate : call.isAggregate = true) (other : call.kind ≠ .sum)
    (values : List Value) :
    ((Tally.start call.kind).addAll call.kind values).map
      (Tally.result (Accumulator.separatorOf call)) = ofValues call values := by
  have present : ∀ v ∈ presentOf values, v.isNull = false := fun _ => not_null_of_mem
  rw [Call.isAggregate] at aggregate
  rw [ofValues]
  cases kind : call.kind with
  | sum => exact absurd kind other
  | count =>
    change ((Tally.count 0).addAll .count values).map _ = _
    rw [Tally.addAll_present, Tally.addAll_count 0 present, Nat.zero_add]
    rfl
  | avg =>
    rw [Tally.start, Tally.addAll_mean]
    change _ = (numbers .avg values).map _
    cases numbers .avg values with
    | error e => rfl
    | ok ns =>
      rw [Except.map, Except.map, Nat.zero_add]
      rfl
  | min =>
    rw [Tally.start, Tally.addAll_present]
    exact Tally.addAll_least_none _ present
  | max =>
    rw [Tally.start, Tally.addAll_present]
    exact Tally.addAll_greatest_none _ present
  | groupConcat =>
    rw [Tally.start, Tally.addAll_present, Tally.addAll_texts [] present]
    rfl
  | _ =>
    rw [kind] at aggregate
    cases aggregate

end Aggregate

/-- Taking in rows one after the other gives what all of them give at once, or ends with the same
error. A sum that is a double may differ in the sign of zero, and nothing else differs. -/
theorem Accumulator.result_ofRows {call : Call} (aggregate : call.isAggregate = true)
    (rows : List Record) :
    SameOutcome ((ofRows call rows).map result) (Aggregate.ofRows call rows) ∧
      (call.kind ≠ .sum → (ofRows call rows).map result = Aggregate.ofRows call rows) := by
  rw [ofRows_eq, Aggregate.ofRows_eq]
  refine ⟨?_, fun other => Aggregate.ofValues_eq aggregate other _⟩
  by_cases sum : call.kind = .sum
  · exact Aggregate.ofValues_sum sum _
  · rw [Aggregate.ofValues_eq aggregate sum]
    exact .refl _

/-- The sum of one minus zero. -/
theorem Accumulator.result_ofRows_zero :
    let call : Call := ⟨.sum, [.field ⟨"x", [.key "x"]⟩]⟩
    let rows : List Record := [⟨[("x", .float (-0.0))]⟩, ⟨[("x", .null)]⟩, ⟨[("y", .int 1)]⟩]
    call.isAggregate = true ∧
      SameOutcome ((ofRows call rows).map result) (Aggregate.ofRows call rows) ∧
      (ofRows call rows).map result = .ok (.float 0.0) ∧
      Aggregate.ofRows call rows = .ok (.float (-0.0)) := by
  intro call rows
  have aggregate : call.isAggregate = true := rfl
  exact ⟨aggregate, (result_ofRows aggregate rows).1, rfl, rfl⟩

end RecordQuery
