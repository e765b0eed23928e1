import RecordQuery.FieldPath
import RecordQuery.Proofs.Except

namespace RecordQuery

/-- What leniency makes of a strict result: a value is kept, and in the place of an error, which has
to be one of the causes, there is some value. -/
structure Relaxes {ε α : Type} (causes : ε → Prop) (strict lenient : Except ε α) : Prop where
  total : ∃ v, lenient = .ok v
  kept : ∀ v, strict = .ok v → lenient = .ok v
  caused : ∀ e, strict = .error e → causes e

namespace Relaxes

variable {ε α β : Type} {causes : ε → Prop} {strict lenient : Except ε α}

theorem ok (v : α) : Relaxes causes (.ok v) (.ok v) where
  total := ⟨v, rfl⟩
  kept _ same := same
  caused _ failed := by cases failed

theorem error {e : ε} (cause : causes e) (v : α) : Relaxes causes (.error e) (.ok v) where
  total := ⟨v, rfl⟩
  kept _ found := by cases found
  caused := by
    rintro _ ⟨⟩
    exact cause

theorem mono {others : ε → Prop} (relaxes : Relaxes causes strict lenient)
    (weaker : ∀ e, causes e → others e) : Relaxes others strict lenient where
  total := relaxes.total
  kept := relaxes.kept
  caused e failed := weaker e (relaxes.caused e failed)

/-- A strict failure does not keep the lenient computation from going on. -/
theorem bind {f g : α → Except ε β} (first : Relaxes causes strict lenient)
    (later : ∀ v, Relaxes causes (f v) (g v)) : Relaxes causes (strict >>= f) (lenient >>= g) := by
  cases strict with
  | ok v =>
    rw [first.kept v rfl]
    exact later v
  | error e =>
    obtain ⟨v, found⟩ := first.total
    obtain ⟨w, behind⟩ := (later v).total
    rw [found, show (Except.ok v >>= g) = g v from rfl, behind]
    exact error (first.caused e rfl) w

theorem map (f : α → β) (relaxes : Relaxes causes strict lenient) :
    Relaxes causes (strict.map f) (lenient.map f) := by
  cases strict with
  | ok v =>
    rw [relaxes.kept v rfl]
    exact ok (f v)
  | error e =>
    obtain ⟨v, found⟩ := relaxes.total
    rw [found]
    exact error (relaxes.caused e rfl) (f v)

theorem mapM {f g : α → Except ε β} (each : ∀ a, Relaxes causes (f a) (g a)) (as : List α) :
    Relaxes causes (as.mapM f) (as.mapM g) := by
  induction as with
  | nil => exact ok []
  | cons a rest ih =>
    rw [List.mapM_cons, List.mapM_cons]
    exact (each a).bind fun b => ih.bind fun bs => ok (b :: bs)

end Relaxes

namespace FieldPath

theorem missing_relaxes (path : FieldPath) :
    Relaxes (· = .missingField path.text) (path.missing .strict) (path.missing .lenient) := by
  refine .error ?_ Value.null
  rfl

/-- A strict walk fails for want of a field only, and where it leads to a value a lenient one leads
there as well. -/
theorem walk_relaxes (path : FieldPath) (segments : List Segment) (v : Value) :
    Relaxes (· = .missingField path.text) (path.walk .strict segments v)
      (path.walk .lenient segments v) := by
  induction segments generalizing v with
  | nil => exact .ok v
  | cons segment rest ih =>
    cases segment with
    | key name =>
      simp only [walk]
      split
      · exact ih _
      · exact path.missing_relaxes
    | each =>
      cases v with
      | array items => exact (Relaxes.mapM ih items).map Value.array
      | _ => exact path.missing_relaxes

theorem resolve_relaxes (path : FieldPath) (r : Record) :
    Relaxes (· = .missingField path.text) (path.resolve r .strict) (path.resolve r .lenient) :=
  path.walk_relaxes path.segments (Value.ofRecord r)

theorem text_of_ofText? {text : String} {path : FieldPath} (read : ofText? text = some path) :
    path.text = text := by
  obtain ⟨segments, -, rfl⟩ := Option.map_eq_some_iff.mp read
  rfl

end FieldPath

namespace Record

/-- Looking up the text of a path is looking up the path. -/
theorem lookup_eq_lookupPath {text : String} {path : FieldPath}
    (read : FieldPath.ofText? text = some path) (r : Record) (mode : Strictness) :
    r.lookup text mode = r.lookupPath path mode := by
  rw [lookup, lookupPath, FieldPath.text_of_ofText? read, FieldPath.ofText, read]
  rfl

/-- The value at a path, which is null where there is no such field. -/
def valueAt (r : Record) (path : FieldPath) : Value :=
  match r.lookupPath path .lenient with
  | .ok v => v
  | .error _ => .null

theorem lookupPath_relaxes (r : Record) (path : FieldPath) :
    Relaxes (· = .missingField path.text) (r.lookupPath path .strict)
      (r.lookupPath path .lenient) := by
  unfold lookupPath
  split
  · exact .ok _
  · exact path.resolve_relaxes r

theorem lookupPath_lenient (r : Record) (path : FieldPath) :
    r.lookupPath path .lenient = .ok (r.valueAt path) := by
  obtain ⟨v, found⟩ := (r.lookupPath_relaxes path).total
  rw [valueAt, found]

end Record

end RecordQuery
