import RecordQuery.Rows

namespace RecordQuery.Rows

/-- Items, each with the number of rows in front of it. Errors are not counted. -/
def ranked (before : Nat) : List Item → List (Nat × Item)
  | [] => []
  | .ok r :: rest => (before, .ok r) :: ranked (before + 1) rest
  | .error e :: rest => (before, .error e) :: ranked before rest

/-- The items without the first rows. All errors stay. -/
def withoutFirst (skip : Nat) (items : List Item) : List Item :=
  ((ranked 0 items).filter fun (before, item) => !item.isOk || skip ≤ before).map Prod.snd

/-- The items up to the last row that a limit leaves. -/
def cut (limit : Option Nat) (items : List Item) : List Item :=
  ((ranked 0 items).filter fun (before, _) => limit.all (before < ·)).map Prod.snd

theorem ranked_succ (before : Nat) (items : List Item) :
    ranked (before + 1) items = (ranked before items).map fun (n, item) => (n + 1, item) := by
  induction items generalizing before with
  | nil => rfl
  | cons item rest ih =>
    cases item with
    | error e => rw [ranked, ranked, ih, List.map_cons]
    | ok r => rw [ranked, ranked, ih, List.map_cons]

section

variable (r : Record) (e : QueryError) (rest : List Item)

theorem withoutFirst_error (skip : Nat) :
    withoutFirst skip (.error e :: rest) = .error e :: withoutFirst skip rest :=
  rfl

theorem withoutFirst_zero : withoutFirst 0 (.ok r :: rest) = .ok r :: withoutFirst 0 rest := by
  simp only [withoutFirst, ranked, ranked_succ, List.filter_cons, List.filter_map]
  simp [Function.comp_def]

theorem withoutFirst_succ (skip : Nat) :
    withoutFirst (skip + 1) (.ok r :: rest) = withoutFirst skip rest := by
  simp only [withoutFirst, ranked, ranked_succ, List.filter_cons, List.filter_map]
  simp [Function.comp_def, Except.isOk, Except.toBool]

theorem cut_zero (items : List Item) : cut (some 0) items = [] := by
  simp [cut]

theorem cut_error {limit : Option Nat} (left : limit ≠ some 0) :
    cut limit (.error e :: rest) = .error e :: cut limit rest := by
  have first : limit.all (0 < ·) = true := by
    cases limit with
    | none => rfl
    | some n => simpa [Nat.pos_iff_ne_zero] using left
  simp [cut, ranked, first]

theorem cut_ok {limit : Option Nat} (left : limit ≠ some 0) :
    cut limit (.ok r :: rest) = .ok r :: cut (limit.map (· - 1)) rest := by
  have first : limit.all (0 < ·) = true := by
    cases limit with
    | none => rfl
    | some n => simpa [Nat.pos_iff_ne_zero] using left
  have later (before : Nat) :
      limit.all (before + 1 < ·) = (limit.map (· - 1)).all (before < ·) := by
    cases limit with
    | none => rfl
    | some n => simp [Nat.lt_sub_iff_add_lt]
  simp only [cut, ranked, ranked_succ, List.filter_cons, List.filter_map]
  simp [Function.comp_def, first, later]

theorem page_zero (skip : Nat) (items : List Item) : page skip (some 0) items = [] := by
  cases items with
  | nil => rfl
  | cons item rest => rw [page.eq_def]; exact if_pos rfl

theorem page_error (skip : Nat) {limit : Option Nat} (left : limit ≠ some 0) :
    page skip limit (.error e :: rest) = .error e :: page skip limit rest := by
  rw [page.eq_def]
  exact if_neg left

theorem page_ok {limit : Option Nat} (left : limit ≠ some 0) :
    page 0 limit (.ok r :: rest) = .ok r :: page 0 (limit.map (· - 1)) rest := by
  rw [page.eq_def]
  exact if_neg left

theorem page_succ (skip : Nat) {limit : Option Nat} (left : limit ≠ some 0) :
    page (skip + 1) limit (.ok r :: rest) = page skip limit rest := by
  rw [page.eq_def]
  exact if_neg left

end

/-- A page is what is left without its first rows, up to the last row that the limit leaves. -/
theorem page_eq_cut (skip : Nat) (limit : Option Nat) (items : List Item) :
    page skip limit items = cut limit (withoutFirst skip items) := by
  induction items generalizing skip limit with
  | nil => rfl
  | cons item rest ih =>
    by_cases left : limit = some 0
    · rw [left, page_zero, cut_zero]
    · cases item with
      | error e => rw [page_error _ _ _ left, withoutFirst_error, cut_error _ _ left, ih]
      | ok r =>
        cases skip with
        | zero => rw [page_ok _ _ left, withoutFirst_zero, cut_ok _ _ left, ih]
        | succ skip => rw [page_succ _ _ _ left, withoutFirst_succ, ih]

theorem page_rows (skip limit : Nat) (rows : List Record) :
    page skip (some limit) (rows.map .ok) = ((rows.drop skip).take limit).map .ok := by
  induction rows generalizing skip limit with
  | nil => rw [List.drop_nil, List.take_nil]; rfl
  | cons r rest ih =>
    cases limit with
    | zero => exact page_zero skip _
    | succ limit =>
      have left : some (limit + 1) ≠ some 0 := by simp
      cases skip with
      | zero => exact (page_ok r _ left).trans (congrArg (.ok r :: ·) (ih 0 limit))
      | succ skip => exact (page_succ r _ skip left).trans (ih skip (limit + 1))

end RecordQuery.Rows
