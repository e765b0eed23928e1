import RecordQuery.Proofs.Call.Made
import RecordQuery.Rows.Projection

namespace RecordQuery

/-- The errors of calls in places where they cannot be computed, and of a choice of rows in steps of
no length. -/
def QueryError.isExecution : QueryError → Bool
  | .aggregateOutsideGroup _ | .notAggregate _ | .zeroStep => true
  | _ => false

/-- Whether a computation does not end in an execution error. -/
def IsOrdinary {α : Type} (done : Except QueryError α) : Prop :=
  ∀ e, done = .error e → e.isExecution = false

namespace IsOrdinary

variable {α β : Type}

theorem ok (a : α) : IsOrdinary (.ok a) :=
  nofun

theorem error {e : QueryError} (plain : e.isExecution = false) :
    IsOrdinary (.error e : Except QueryError α) :=
  fun _ same => Except.error.inj same ▸ plain

theorem bind {done : Except QueryError α} {next : α → Except QueryError β}
    (first : IsOrdinary done) (later : ∀ a, done = .ok a → IsOrdinary (next a)) :
    IsOrdinary (done >>= next) := by
  cases done with
  | error e => exact error (first e rfl)
  | ok a => exact later a rfl

theorem map {done : Except QueryError α} (f : α → β) (ordinary : IsOrdinary done) :
    IsOrdinary (done.map f) :=
  ordinary.bind fun a _ => ok (f a)

theorem mapM {f : α → Except QueryError β} {as : List α}
    (each : ∀ a ∈ as, IsOrdinary (f a)) : IsOrdinary (as.mapM f) := by
  intro e failed
  obtain ⟨a, member, wrong⟩ := exists_of_mapM_error failed
  exact each a member e wrong

/-- Value errors are no execution errors. -/
theorem ofValue (e : ValueError) : IsOrdinary (.error (.ofValue e) : Except QueryError α) := by
  cases e <;> exact error rfl

theorem mapError (done : Except ValueError α) : IsOrdinary (done.mapError .ofValue) := by
  cases done with
  | error e => exact ofValue e
  | ok a => exact ok a

end IsOrdinary

namespace Scalar

theorem isOrdinary_number (kind : FunctionKind) (v : Value) : IsOrdinary (number kind v) := by
  unfold number
  split
  · exact .ok _
  split
  · exact .ok _
  · exact .error rfl

theorem isOrdinary_integer (kind : FunctionKind) (v : Value) : IsOrdinary (integer kind v) := by
  have read := isOrdinary_number kind v
  unfold integer
  split
  · rename_i e failed
    exact .error (read e failed)
  · exact .ok _
  · split
    · exact .ok _
    · exact .error rfl
  · exact .error rfl

theorem isOrdinary_substring (v start length : Value) : IsOrdinary (substring v start length) := by
  unfold substring
  split
  · exact .ok _
  refine (isOrdinary_integer _ _).bind fun _ _ => ?_
  dsimp only
  split
  · exact .ok _
  · exact (isOrdinary_integer _ _).bind fun _ _ => .ok _

theorem isOrdinary_round (v places : Value) : IsOrdinary (round v places) := by
  unfold round
  refine (isOrdinary_number _ _).bind fun n _ => ?_
  cases n with
  | none => exact .ok _
  | some n =>
    dsimp only
    split
    · exact .ok _
    · exact ((isOrdinary_integer _ _).map _).bind fun _ _ => .ok _

theorem isOrdinary_toWhole (kind : FunctionKind) (rounding : Float → Float) (v : Value) :
    IsOrdinary (toWhole kind rounding v) := by
  refine (isOrdinary_number kind v).bind fun n _ => ?_
  rcases n with _ | ⟨n⟩ | ⟨x⟩ <;> exact .ok _

theorem isOrdinary_abs (v : Value) : IsOrdinary (abs v) := by
  refine (isOrdinary_number _ v).bind fun n _ => ?_
  rcases n with _ | ⟨n⟩ | ⟨x⟩
  · exact .ok _
  · dsimp only
    split <;> exact .ok _
  · exact .ok _

theorem isOrdinary_mod (v w : Value) : IsOrdinary (mod v w) := by
  refine (isOrdinary_number _ v).bind fun a _ => (isOrdinary_number _ w).bind fun b _ => ?_
  split
  · split
    · exact .error rfl
    · exact .ok _
  · split
    · exact .error rfl
    · exact .ok _
  · exact .ok _

theorem isOrdinary_formatted (m : Calendar.Moment) (format : String) :
    IsOrdinary (formatted m format) := by
  unfold formatted
  split
  · exact .ok _
  · exact .error rfl

theorem isOrdinary_moment (v : Value) : IsOrdinary (moment v) := by
  unfold moment
  dsimp only
  split
  · exact .ok _
  split
  · exact .ok _
  · exact .error rfl

theorem isOrdinary_dateFormat (v format : Value) : IsOrdinary (dateFormat v format) := by
  refine (isOrdinary_moment v).bind fun m _ => ?_
  cases m with
  | none => exact .ok _
  | some m => exact isOrdinary_formatted m _

theorem isOrdinary_now (ambient : Ambient) (format : Value) : IsOrdinary (now ambient format) := by
  unfold now
  split
  · exact .ok _
  · exact isOrdinary_formatted _ _

/-- Only an aggregate is out of place among the functions of one row. -/
theorem isOrdinary_compute (ambient : Ambient) (place : String) {kind : FunctionKind}
    (single : kind.isAggregate = false) (arguments : List Value) :
    IsOrdinary (compute ambient place kind arguments) := by
  cases kind with
  | substring => exact isOrdinary_substring _ _ _
  | round => exact isOrdinary_round _ _
  | floor | ceil => exact isOrdinary_toWhole _ _ _
  | abs => exact isOrdinary_abs _
  | mod => exact isOrdinary_mod _ _
  | now => exact isOrdinary_now _ _
  | dateFormat => exact isOrdinary_dateFormat _ _
  | count | sum | avg | min | max | groupConcat => cases single
  | _ => exact .ok _

end Scalar

theorem Record.isOrdinary_argument (raw row : Record) (path : FieldPath) :
    IsOrdinary (raw.argument row path) := by
  unfold Record.argument
  split
  · exact .ok _
  · exact .mapError _

namespace Call

variable (ambient : Ambient) (raw row : Record)

theorem isOrdinary_argumentValues {arguments : List Argument}
    (each : ∀ a ∈ arguments, IsOrdinary (argumentValue ambient raw row a)) :
    IsOrdinary (argumentValues ambient raw row arguments) := by
  induction arguments with
  | nil => exact .ok _
  | cons a rest ih =>
    obtain ⟨first, later⟩ := List.forall_mem_cons.mp each
    rw [argumentValues]
    split
    · rename_i e failed
      exact .error (first e failed)
    · exact (ih later).map _

/-- An argument of one row is computed without an execution error, at every depth. -/
theorem isOrdinary_argumentValue {a : Argument} (rowwise : a.IsRowwise) :
    IsOrdinary (argumentValue ambient raw row a) := by
  induction rowwise with
  | field path => exact raw.isOrdinary_argument row path
  | literal v => exact .ok v
  | call single _ each =>
    have values := isOrdinary_argumentValues ambient raw row each
    rw [argumentValue, if_neg (by simp [single])]
    split
    · rename_i e failed
      exact .error (values e failed)
    · exact Scalar.isOrdinary_compute ambient _ single _

end Call

/-- A field with a call is computed from one row if its call is. -/
theorem SelectedField.isOrdinary_evaluate (ambient : Ambient) {f : SelectedField}
    (rowwise : ∀ c, f.call? = some c → c.toArgument.IsRowwise) (raw row : Record) :
    IsOrdinary (f.evaluate ambient raw row) := by
  unfold evaluate
  unfold call? at rowwise
  split
  · exact .mapError _
  · rename_i c same
    rw [same] at rowwise
    exact Call.isOrdinary_argumentValue ambient raw row (rowwise c rfl)

namespace Accumulator

theorem isOrdinary_addTally (kind : FunctionKind) (tally : Tally) (v : Value) :
    IsOrdinary (tally.add kind v) := by
  cases tally with
  | sum whole total =>
    refine (Scalar.isOrdinary_number kind v).bind fun n _ => ?_
    cases n <;> exact .ok _
  | mean total count =>
    refine (Scalar.isOrdinary_number kind v).bind fun n _ => ?_
    cases n <;> exact .ok _
  | _ => exact .ok _

/-- Whatever function an aggregate is of, taking in a row is no execution error. -/
theorem isOrdinary_add (a : Accumulator) (r : Record) : IsOrdinary (a.add r) := by
  have read : IsOrdinary (a.input.value r) := by
    cases a.input with
    | rows => exact .ok _
    | field path => exact .mapError _
  unfold add
  split
  · rename_i e failed
    exact .error (read e failed)
  · exact (isOrdinary_addTally _ _ _).map _

end Accumulator

end RecordQuery
