import RecordQuery.Rows

namespace RecordQuery.Rows

/-- The rows among items. -/
def rowsOf (items : List Item) : List Record :=
  items.filterMap fun item => item.toOption

@[simp] theorem rowsOf_nil : rowsOf [] = [] :=
  rfl

@[simp] theorem rowsOf_ok (r : Record) (rest : List Item) :
    rowsOf (.ok r :: rest) = r :: rowsOf rest :=
  rfl

@[simp] theorem rowsOf_error (e : QueryError) (rest : List Item) :
    rowsOf (.error e :: rest) = rowsOf rest :=
  rfl

theorem rowsOf_append (before after : List Item) :
    rowsOf (before ++ after) = rowsOf before ++ rowsOf after :=
  List.filterMap_append

/-- Whether there is an error among items. -/
def HasError (items : List Item) : Prop :=
  ∃ e, .error e ∈ items

variable {items : List Item} {rows : List Record}

theorem hasError_cons (item : Item) (failed : HasError items) : HasError (item :: items) :=
  failed.imp fun _ member => List.mem_cons_of_mem _ member

theorem hasError_of_cons {r : Record} (failed : HasError (.ok r :: items)) : HasError items := by
  obtain ⟨e, member⟩ := failed
  exact ⟨e, (List.mem_cons.mp member).resolve_left nofun⟩

/-- The items in front of the first error are rows. -/
theorem exists_first_error (failed : HasError items) :
    ∃ (rows : List Record) (e : QueryError) (rest : List Item),
      items = rows.map .ok ++ .error e :: rest := by
  induction items with
  | nil =>
    obtain ⟨_, member⟩ := failed
    cases member
  | cons item later ih =>
    cases item with
    | error e => exact ⟨[], e, later, rfl⟩
    | ok r =>
      obtain ⟨rows, first, rest, same⟩ := ih (hasError_of_cons failed)
      exact ⟨r :: rows, first, rest, congrArg (.ok r :: ·) same⟩

theorem exists_rows (clean : ¬ HasError items) : ∃ rows : List Record, items = rows.map .ok := by
  induction items with
  | nil => exact ⟨[], rfl⟩
  | cons item rest ih =>
    cases item with
    | error e => exact absurd ⟨e, List.mem_cons_self ..⟩ clean
    | ok r =>
      obtain ⟨rows, same⟩ := ih fun failed => clean (hasError_cons _ failed)
      exact ⟨r :: rows, congrArg (.ok r :: ·) same⟩

theorem not_hasError_rows (rows : List Record) : ¬ HasError (rows.map .ok) := by
  rintro ⟨e, member⟩
  obtain ⟨r, _, same⟩ := List.mem_map.mp member
  cases same

theorem collect_ok (same : items = rows.map .ok) : collect items = .ok rows := by
  subst same
  induction rows with
  | nil => rfl
  | cons r rest ih => rw [List.map_cons, collect, ih]; rfl

theorem collect_error (rows : List Record) (e : QueryError) (rest : List Item) :
    collect (rows.map .ok ++ .error e :: rest) = .error e := by
  induction rows with
  | nil => rfl
  | cons r later ih => rw [List.map_cons, List.cons_append, collect, ih]; rfl

theorem eq_of_collect (collected : collect items = .ok rows) : items = rows.map .ok := by
  by_cases failed : HasError items
  · obtain ⟨front, e, rest, same⟩ := exists_first_error failed
    rw [same, collect_error] at collected
    cases collected
  · obtain ⟨found, same⟩ := exists_rows failed
    rw [collect_ok same] at collected
    cases collected
    exact same

end RecordQuery.Rows
