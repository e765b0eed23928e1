import Mathlib.Data.List.Basic
import Mathlib.Data.Nat.ModEq
import RecordQuery.Proofs.Rows.Collect
import RecordQuery.Result

namespace RecordQuery

/-- The rows whose numbers are congruent to the first one. -/
def Rows.strided (first step : Nat) (rows : List Record) : List Record :=
  (rows.zipIdx.filter fun (_, i) => i ≡ first [MOD step]).map Prod.fst

namespace RowChoice

/-- A number that is congruent to the first one is not before it. -/
theorem chosen_iff {first step : Nat} (inside : first < step) (i : Nat) :
    first ≤ i ∧ (i - first) % step = 0 ↔ i ≡ first [MOD step] := by
  constructor
  · rintro ⟨behind, divided⟩
    exact ((Nat.modEq_iff_dvd' behind).mpr (Nat.dvd_of_mod_eq_zero divided)).symm
  · intro congruent
    have behind : first ≤ i := by
      have remainder : i % step = first := Eq.trans congruent (Nat.mod_eq_of_lt inside)
      rw [← remainder]
      exact Nat.mod_le i step
    exact ⟨behind, Nat.mod_eq_zero_of_dvd ((Nat.modEq_iff_dvd' behind).mp congruent.symm)⟩

theorem pick_of_stride {choice : RowChoice} {first step : Nat}
    (stride : choice.stride = .ok (first, step)) (inside : first < step) (rows : List Record) :
    choice.pick rows = .ok (Rows.strided first step rows) := by
  have chosen (row : Record × Nat) :
      (first ≤ row.2 && (row.2 - first) % step == 0) = decide (row.2 ≡ first [MOD step]) := by
    rw [Bool.eq_iff_iff, Bool.and_eq_true, decide_eq_true_eq, decide_eq_true_eq, beq_iff_eq]
    exact chosen_iff inside row.2
  rw [pick, stride]
  exact congrArg (fun test => Except.ok ((rows.zipIdx.filter test).map Prod.fst)) (funext chosen)

/-- A choice of rows can be made unless its step is zero. -/
theorem exists_stride {choice : RowChoice} (valid : choice ≠ .every 0) :
    ∃ stride, choice.stride = .ok stride := by
  cases choice with
  | every n =>
    cases n with
    | zero => exact absurd rfl valid
    | succ n => exact ⟨_, rfl⟩
  | even => exact ⟨_, rfl⟩
  | odd => exact ⟨_, rfl⟩

end RowChoice

/-- The rows with even and those with odd numbers are all rows. -/
theorem Rows.strided_perm (rows : List Record) :
    (strided 0 2 rows ++ strided 1 2 rows).Perm rows := by
  have other : rows.zipIdx.filter (fun (_, i) => i ≡ 1 [MOD 2]) =
      rows.zipIdx.filter fun row => !decide (row.2 ≡ 0 [MOD 2]) := by
    refine List.filter_congr fun row _ => ?_
    rw [← decide_not, decide_eq_decide]
    unfold Nat.ModEq
    omega
  rw [strided, strided, other, ← List.map_append]
  have all := (List.filter_append_perm (fun row => decide (row.2 ≡ 0 [MOD 2])) rows.zipIdx).map
    Prod.fst
  rwa [List.zipIdx_map_fst] at all

namespace FrozenResult

/-- Whether choices of rows by their numbers give exactly these rows, so that every row is in one of
the two halves. -/
structure ChoosesRows (f : FrozenResult) : Prop where
  every : ∀ n, 0 < n → f.fetchNth (.every n) = .ok (Rows.strided 0 n f.rows)
  even : f.fetchNth .even = .ok (Rows.strided 0 2 f.rows)
  odd : f.fetchNth .odd = .ok (Rows.strided 1 2 f.rows)
  halves : (Rows.strided 0 2 f.rows ++ Rows.strided 1 2 f.rows).Perm f.rows

theorem choosesRows (f : FrozenResult) : f.ChoosesRows where
  every n positive := by
    obtain ⟨n, rfl⟩ := Nat.exists_eq_succ_of_ne_zero positive.ne'
    exact RowChoice.pick_of_stride rfl positive f.rows
  even := RowChoice.pick_of_stride rfl Nat.two_pos f.rows
  odd := RowChoice.pick_of_stride rfl Nat.one_lt_two f.rows
  halves := Rows.strided_perm f.rows

end FrozenResult

namespace StreamResult

/-- What is left of a stream after so many calls of `next`. -/
def after (s : StreamResult) : Nat → StreamResult
  | 0 => s
  | n + 1 => s.next.2.after n

theorem items_after (s : StreamResult) (n : Nat) : (s.after n).items = s.items.drop n := by
  induction n generalizing s with
  | zero => rfl
  | succ n ih =>
    obtain ⟨items⟩ := s
    cases items with
    | nil => rw [after, ih]; simp [next]
    | cons item rest => exact ih ⟨rest⟩

/-- Whether a stream gives the same as a frozen result. -/
structure AgreesWith (s : StreamResult) (f : FrozenResult) : Prop where
  fetchAll : ∀ limit, s.fetchAll limit = .ok (f.fetchAll limit)
  fetchOne : s.fetchOne = .ok f.fetchOne
  fetchNth : ∀ choice, s.fetchNth choice = f.fetchNth choice
  exists? : s.exists? = .ok f.exists?
  count : s.count = .ok f.count
  reduce : ∀ kind field, s.reduce kind field = f.reduce kind field

/-- Whether a stream fails with the error that is found behind so many rows, in every operation that
reads as far. -/
structure FailsBehind (s : StreamResult) (rows : List Record) (e : QueryError) : Prop where
  freeze : s.freeze = .error e
  count : s.count = .error e
  fetchAll : s.fetchAll none = .error e
  fetchNth : ∀ choice, choice ≠ .every 0 → s.fetchNth choice = .error e
  fetchFirst : ∀ n, s.fetchAll (some n) = if rows.length < n then .error e else .ok (rows.take n)
  fetchOne : s.fetchOne = if rows.length < 1 then .error e else .ok rows.head?
  exists? : s.exists? = if rows.length < 1 then .error e else .ok true

section

variable {s : StreamResult} {rows : List Record}

theorem fetchNth_of_collect {result : Except QueryError (List Record)}
    (collected : Rows.collect s.items = result) {choice : RowChoice} {stride : Nat × Nat}
    (valid : choice.stride = .ok stride) : s.fetchNth choice = result.bind choice.pick := by
  rw [fetchNth, valid, collected]
  rfl

theorem agreesWith (same : s.items = rows.map .ok) : s.AgreesWith ⟨rows⟩ where
  fetchAll limit := by
    cases limit with
    | none => exact Rows.collect_ok same
    | some n => exact Rows.collect_ok (by rw [same]; exact List.map_take.symm)
  fetchOne := by
    rw [fetchOne, same]
    cases rows <;> rfl
  fetchNth choice := by
    by_cases valid : choice = .every 0
    · subst valid
      rfl
    · obtain ⟨stride, found⟩ := RowChoice.exists_stride valid
      exact fetchNth_of_collect (Rows.collect_ok same) found
  exists? := by
    rw [exists?, fetchOne, same]
    cases rows <;> rfl
  count := by rw [count, Rows.collect_ok same]; rfl
  reduce kind field := by rw [reduce, same]; rfl

theorem failsBehind {e : QueryError} {rest : List Item}
    (same : s.items = rows.map .ok ++ .error e :: rest) : s.FailsBehind rows e := by
  have collected : Rows.collect s.items = .error e := by rw [same, Rows.collect_error]
  refine ⟨?_, ?_, collected, fun choice valid => ?_, fun n => ?_, ?_, ?_⟩
  · rw [freeze, collected]
    rfl
  · rw [count, collected]
    rfl
  · obtain ⟨stride, found⟩ := RowChoice.exists_stride valid
    exact fetchNth_of_collect collected found
  · rw [fetchAll, same]
    split
    · rename_i far
      obtain ⟨m, more⟩ := Nat.exists_eq_add_of_lt far
      have taken : (rows.map Except.ok ++ Except.error e :: rest).take n =
          rows.map .ok ++ .error e :: rest.take m := by
        rw [List.take_append, List.take_of_length_le (by rw [List.length_map]; omega),
          List.length_map, show n - rows.length = m + 1 by omega, List.take_succ_cons]
      exact (congrArg Rows.collect taken).trans (Rows.collect_error rows e (rest.take m))
    · rename_i near
      refine Rows.collect_ok ?_
      rw [List.take_append_of_le_length (by rw [List.length_map]; omega), List.map_take]
  · rw [fetchOne, same]
    cases rows <;> rfl
  · rw [exists?, fetchOne, same]
    cases rows <;> rfl

end

/-- However far a stream has been read, what is left of it gives the same as what it freezes to, as
long as there is no error left. Otherwise all operations fail with the first one that read it. -/
theorem freeze_after (s : StreamResult) (n : Nat) :
    (s.after n).items = s.items.drop n ∧
      (¬ Rows.HasError (s.after n).items → ∃ f, (s.after n).freeze = .ok f ∧
        (s.after n).items = f.rows.map .ok ∧ (s.after n).AgreesWith f ∧ f.ChoosesRows) ∧
      (Rows.HasError (s.after n).items → ∃ (rows : List Record) (e : QueryError) (rest : List Item),
        (s.after n).items = rows.map .ok ++ .error e :: rest ∧ (s.after n).FailsBehind rows e) := by
  refine ⟨s.items_after n, fun clean => ?_, fun failed => ?_⟩
  · obtain ⟨rows, same⟩ := Rows.exists_rows clean
    refine ⟨⟨rows⟩, ?_, same, agreesWith same, FrozenResult.choosesRows _⟩
    rw [freeze, Rows.collect_ok same]
    rfl
  · obtain ⟨rows, e, rest, same⟩ := Rows.exists_first_error failed
    exact ⟨rows, e, rest, same, failsBehind same⟩

/-- Two rows with an error between them, which is left behind the first row and not behind
itself. -/
theorem freeze_after_mixed :
    let s : StreamResult := ⟨[.ok ⟨[("a", .int 1)]⟩, .error (.source (.notRecord "int")),
      .ok ⟨[("a", .int 2)]⟩]⟩
    (Rows.HasError (s.after 1).items ∧ ∃ (rows : List Record) (e : QueryError) (rest : List Item),
        (s.after 1).items = rows.map .ok ++ .error e :: rest ∧ (s.after 1).FailsBehind rows e) ∧
      ¬ Rows.HasError (s.after 2).items ∧ ∃ f, (s.after 2).freeze = .ok f ∧
        (s.after 2).items = f.rows.map .ok ∧ (s.after 2).AgreesWith f ∧ f.ChoosesRows := by
  intro s
  have failed : Rows.HasError (s.after 1).items := ⟨_, List.mem_cons_self ..⟩
  have clean : ¬ Rows.HasError (s.after 2).items := Rows.not_hasError_rows [⟨[("a", .int 2)]⟩]
  exact ⟨⟨failed, (s.freeze_after 1).2.2 failed⟩, clean, (s.freeze_after 2).2.1 clean⟩

end StreamResult

end RecordQuery
