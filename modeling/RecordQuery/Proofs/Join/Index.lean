import RecordQuery.Proofs.Double.Order
import RecordQuery.Rows.Join
import Std.Data.HashMap.Lemmas

namespace RecordQuery

theorem Number.unsigned_zero_congr {m n : Number} (same : m.compare? n = some .eq) :
    (if m.toFloat == 0.0 then 0.0 else m.toFloat) =
      if n.toFloat == 0.0 then 0.0 else n.toFloat := by
  cases m with
  | int a =>
    cases n with
    | int b =>
      simp only [Number.compare?, Option.some.injEq, Std.LawfulEqOrd.compare_eq_iff_eq] at same
      rw [Int64.toInt_inj.mp same]
    | float y => exact Double.unsigned_zero_congr same
  | float x => cases n <;> exact Double.unsigned_zero_congr same

/-- Numbers that are equal are looked up by one text, and so are the texts that denote them. -/
theorem joinKey?_congr_of_numbers {v w : Value} {m n : Number} (first : v.number? = some m)
    (second : w.number? = some n) (same : m.compare? n = some .eq) :
    joinKey? v = joinKey? w := by
  simp only [joinKey?, first, second, Number.unsigned_zero_congr same]

theorem joinKey?_congr_of_scalarEq {v w : Value} (same : v.scalarEq w = true) :
    joinKey? v = joinKey? w := by
  unfold Value.scalarEq at same
  split at same
  · rename_i first second
    exact joinKey?_congr_of_numbers first second (beq_iff_eq.mp same)
  · split at same
    · rw [beq_iff_eq.mp same]
    · exact absurd same Bool.false_ne_true

/-- Null, truth values and containers have no key. What remains is compared as numbers or texts. -/
theorem joinKey?_congr_of_looseEq {v w : Value} (first : joinKey? v ≠ none)
    (second : joinKey? w ≠ none) (same : v.looseEq w = true) : joinKey? v = joinKey? w := by
  cases v with
  | null | bool | array | record => exact absurd rfl first
  | int | float | text =>
    cases w with
    | null | bool | array | record => exact absurd rfl second
    | int | float | text =>
      refine joinKey?_congr_of_scalarEq ?_
      rw [Value.looseEq] at same <;> first | exact same | simp

theorem joinKey?_congr_of_strictEq {v w : Value} (first : joinKey? v ≠ none)
    (same : v.strictEq w = true) : joinKey? v = joinKey? w := by
  cases v with
  | null | bool | array | record => exact absurd rfl first
  | int a =>
    cases w <;> simp only [Value.strictEq, Bool.false_eq_true, beq_iff_eq] at same
    rw [same]
  | float x =>
    cases w <;> simp only [Value.strictEq, Bool.false_eq_true] at same
    exact joinKey?_congr_of_numbers rfl rfl (Double.beq_iff_compare?.mp same)
  | text s =>
    cases w <;> simp only [Value.strictEq, Bool.false_eq_true, beq_iff_eq] at same
    rw [same]

/-- The two equalities never hold of values with different keys. -/
theorem Operator.apply_eq_false_of_keys {op : Operator} {v w : Value} {k l : String}
    (equality : op.isEquality = true) (first : joinKey? v = some k) (second : joinKey? w = some l)
    (apart : k ≠ l) : op.apply v w = false := by
  have different : joinKey? v ≠ joinKey? w := by
    rw [first, second]
    exact fun same => apart (Option.some.inj same)
  have firstKeyed : joinKey? v ≠ none := by simp [first]
  have secondKeyed : joinKey? w ≠ none := by simp [second]
  rw [Bool.eq_false_iff]
  intro holds
  cases op with
  | equal => exact different (joinKey?_congr_of_looseEq firstKeyed secondKeyed holds)
  | strictEqual => exact different (joinKey?_congr_of_strictEq firstKeyed holds)
  | _ => exact absurd equality Bool.false_ne_true

namespace JoinIndex

theorem unkeyed_foldl_add (rows : List RightRow) (index : JoinIndex) :
    (rows.foldl add index).unkeyed =
      index.unkeyed ++ rows.filter fun r => joinKey? r.key == none := by
  induction rows generalizing index with
  | nil => simp
  | cons r rest ih =>
    rw [List.foldl_cons, ih]
    cases keyed : joinKey? r.key <;> simp [add, keyed]

theorem keyed_foldl_add (rows : List RightRow) (index : JoinIndex) (key : String) :
    (rows.foldl add index).keyed.getD key [] =
      index.keyed.getD key [] ++ rows.filter fun r => joinKey? r.key == some key := by
  induction rows generalizing index with
  | nil => simp
  | cons r rest ih =>
    rw [List.foldl_cons, ih]
    cases keyed : joinKey? r.key with
    | none => simp [add, keyed]
    | some found =>
      by_cases same : found = key
      · simp [add, keyed, same]
      · simp [add, keyed, Std.HashMap.getD_insert, same]

theorem unkeyed_ofRows (rows : List RightRow) :
    (ofRows rows).unkeyed = rows.filter fun r => joinKey? r.key == none := by
  rw [ofRows, unkeyed_foldl_add, List.nil_append]

theorem keyed_ofRows (rows : List RightRow) (key : String) :
    (ofRows rows).keyed.getD key [] = rows.filter fun r => joinKey? r.key == some key := by
  rw [ofRows, keyed_foldl_add, Std.HashMap.getD_empty, List.nil_append]

end JoinIndex

/-- Right rows in the order of their numbers, each number once. -/
def RightRow.Numbered (rows : List RightRow) : Prop :=
  rows.Pairwise fun a b => a.number < b.number

namespace RightRow

theorem eq_of_number_eq {rows : List RightRow} (numbered : Numbered rows) {a b : RightRow}
    (first : a ∈ rows) (second : b ∈ rows) (same : a.number = b.number) : a = b := by
  induction numbered with
  | nil => cases first
  | @cons r rest before _ ih =>
    rcases List.mem_cons.mp first with atFirst | first <;>
      rcases List.mem_cons.mp second with atSecond | second
    · rw [atFirst, atSecond]
    · exact absurd same (Nat.ne_of_lt (atFirst ▸ before b second))
    · exact absurd same (Nat.ne_of_gt (atSecond ▸ before a first))
    · exact ih first second

/-- Sorting by number brings rows back into the order in which they were numbered. -/
theorem mergeSort_perm_filter {rows found : List RightRow} {p : RightRow → Bool}
    (numbered : Numbered rows) (same : found.Perm (rows.filter p)) :
    (found.mergeSort fun a b => decide (a.number ≤ b.number)) = rows.filter p := by
  have sorted : (found.mergeSort fun a b => decide (a.number ≤ b.number)).Pairwise
      fun a b => decide (a.number ≤ b.number) = true :=
    List.pairwise_mergeSort (by simp only [decide_eq_true_eq]; omega)
      (by simp only [Bool.or_eq_true, decide_eq_true_eq]; omega) found
  have ordered : (rows.filter p).Pairwise fun a b => decide (a.number ≤ b.number) = true :=
    (numbered.filter p).imp fun less => decide_eq_true (Nat.le_of_lt less)
  have arranged := (List.mergeSort_perm found fun a b => decide (a.number ≤ b.number)).trans same
  refine arranged.eq_of_pairwise (fun a b first second below above => ?_) sorted ordered
  refine eq_of_number_eq numbered (List.mem_filter.mp (arranged.subset first)).1
    (List.mem_filter.mp second).1 ?_
  simp only [decide_eq_true_eq] at below above
  omega

end RightRow

theorem filter_append_filter_perm {α : Type} {p q : α → Bool} (l : List α)
    (apart : ∀ a, p a = true → q a = false) :
    (l.filter p ++ l.filter q).Perm (l.filter fun a => p a || q a) := by
  have parts := List.filter_append_perm p (l.filter fun a => p a || q a)
  rw [List.filter_filter, List.filter_filter] at parts
  have first : (fun a => p a && (p a || q a)) = p := by
    funext a
    cases p a <;> rfl
  have second : (fun a => !p a && (p a || q a)) = q := by
    funext a
    cases holds : p a
    · rfl
    · exact (apart a holds).symm
  rwa [first, second] at parts

/-- Looking a key up gives the right rows of that key and those without one, in their order. -/
theorem Joiner.candidates_of_index {j : Joiner} {v : Value} {key : String}
    (indexed : j.index = some (JoinIndex.ofRows j.rows)) (keyed : joinKey? v = some key)
    (numbered : RightRow.Numbered j.rows) :
    j.candidates v =
      j.rows.filter fun r => joinKey? r.key == some key || joinKey? r.key == none := by
  simp only [Joiner.candidates, indexed, keyed, JoinIndex.keyed_ofRows, JoinIndex.unkeyed_ofRows]
  refine RightRow.mergeSort_perm_filter numbered (filter_append_filter_perm _ fun r here => ?_)
  rw [beq_iff_eq.mp here]
  rfl

/-- With an equality the rows left out by a lookup are rows that do not match. -/
theorem Joiner.filter_candidates {j : Joiner} (equality : j.operator.isEquality = true)
    (indexed : j.index = some (JoinIndex.ofRows j.rows)) (numbered : RightRow.Numbered j.rows)
    (v : Value) :
    ((j.candidates v).filter fun r => j.operator.apply v r.key) =
      j.rows.filter fun r => j.operator.apply v r.key := by
  cases keyed : joinKey? v with
  | none => rw [Joiner.candidates, keyed]; cases j.index <;> rfl
  | some key =>
    rw [Joiner.candidates_of_index indexed keyed numbered, List.filter_filter]
    refine List.filter_congr fun r _ => ?_
    cases rightKeyed : joinKey? r.key with
    | none => simp
    | some other =>
      by_cases same : other = key
      · simp [same]
      · rw [j.operator.apply_eq_false_of_keys equality keyed rightKeyed (Ne.symm same)]
        rfl

end RecordQuery
