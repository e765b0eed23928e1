import Mathlib.Data.List.Infix
import RecordQuery.Proofs.Json.Written
import RecordQuery.Proofs.Rows.Collect
import RecordQuery.Rows

namespace RecordQuery

/-- Whether the same is written of two rows: the same keys in the same order with the same values,
where a double that is not finite counts as null. -/
def Record.SameForm (r s : Record) : Prop :=
  Json.written (.ofRecord r) = Json.written (.ofRecord s)

instance : DecidableRel Record.SameForm := fun _ _ => inferInstanceAs (Decidable (_ = _))

theorem Record.toJson_eq_iff {r s : Record} : r.toJson = s.toJson ↔ r.SameForm s :=
  Json.write_eq_iff

namespace Rows

/-- Whether an item is an error, or a row that no row in front of it is the same as. -/
def IsFirst (same : Record → Record → Prop) (before : List Item) : Item → Prop
  | .error _ => True
  | .ok r => ∀ q ∈ rowsOf before, ¬ same q r

instance (same : Record → Record → Prop) [DecidableRel same] (before : List Item) (item : Item) :
    Decidable (IsFirst same before item) :=
  match item with
  | .error _ => inferInstanceAs (Decidable True)
  | .ok r => inferInstanceAs (Decidable (∀ q ∈ rowsOf before, ¬ same q r))

/-- The items, in their order, that are first among all items behind others. -/
def firstsAfter (same : Record → Record → Prop) [DecidableRel same] (before items : List Item) :
    List Item :=
  ((items.inits.zip items).filter fun entry => IsFirst same (before ++ entry.1) entry.2).map
    Prod.snd

/-- The items, in their order, without the rows that a row in front of them is the same as. -/
def firsts (same : Record → Record → Prop) [DecidableRel same] (items : List Item) : List Item :=
  firstsAfter same [] items

section Firsts

variable {same : Record → Record → Prop} [DecidableRel same] {before items : List Item}

theorem firstsAfter_cons (item : Item) (rest : List Item) :
    firstsAfter same before (item :: rest) =
      if IsFirst same before item then item :: firstsAfter same (before ++ [item]) rest
      else firstsAfter same (before ++ [item]) rest := by
  have later : (((rest.inits.map (item :: ·)).zip rest).filter fun entry =>
      IsFirst same (before ++ entry.1) entry.2).map Prod.snd =
      firstsAfter same (before ++ [item]) rest := by
    rw [List.zip_map_left, List.filter_map, List.map_map, firstsAfter]
    simp only [Function.comp_def, Prod.map_fst, Prod.map_snd, id_eq, List.append_assoc,
      List.singleton_append]
  rw [← later, firstsAfter, List.inits_cons, List.zip_cons_cons, List.filter_cons,
    List.append_nil]
  simp only [decide_eq_true_eq]
  split <;> rfl

/-- What is first behind one item more is first behind fewer. -/
theorem mem_firstsAfter_cons {item : Item} {rest : List Item} {r : Record}
    (kept : r ∈ rowsOf (firstsAfter same (before ++ [item]) rest)) :
    r ∈ rowsOf (firstsAfter same before (item :: rest)) := by
  rw [firstsAfter_cons]
  split
  · cases item with
    | error e => exact kept
    | ok s => exact List.mem_cons_of_mem s kept
  · exact kept

/-- No row that is first behind others is the same as one of them. -/
theorem not_same_of_mem {q r : Record} (front : q ∈ rowsOf before)
    (kept : r ∈ rowsOf (firstsAfter same before items)) : ¬ same q r := by
  induction items generalizing before with
  | nil => cases kept
  | cons item rest ih =>
    have later := @ih (before ++ [item]) (by
      rw [rowsOf_append]
      exact List.mem_append_left _ front)
    rw [firstsAfter_cons] at kept
    split at kept
    · rename_i first
      cases item with
      | error e => exact later kept
      | ok s =>
        rcases List.mem_cons.mp kept with rfl | kept
        · exact first q front
        · exact later kept
    · exact later kept

/-- No two rows that are first are the same. -/
theorem pairwise_firstsAfter (before items : List Item) :
    (rowsOf (firstsAfter same before items)).Pairwise fun q r => ¬ same q r := by
  induction items generalizing before with
  | nil => exact .nil
  | cons item rest ih =>
    have later := ih (before ++ [item])
    rw [firstsAfter_cons]
    split
    · cases item with
      | error e => exact later
      | ok s =>
        refine List.pairwise_cons.mpr ⟨fun r kept => not_same_of_mem ?_ kept, later⟩
        rw [rowsOf_append]
        exact List.mem_append_right _ (List.mem_singleton_self s)
    · exact later

/-- The next row is first, unless a row in front of it is the same. -/
theorem exists_same_next (reflexive : ∀ r, same r r) (before : List Item) (s : Record)
    (rest : List Item) :
    ∃ q ∈ rowsOf before ++ rowsOf (firstsAfter same before (.ok s :: rest)), same q s := by
  rw [firstsAfter_cons]
  split
  · exact ⟨s, List.mem_append_right _ (List.mem_cons_self ..), reflexive s⟩
  · rename_i seen
    simp only [IsFirst, not_forall, not_not] at seen
    obtain ⟨q, front, alike⟩ := seen
    exact ⟨q, List.mem_append_left _ front, alike⟩

/-- A row that is first, or one in front of all, is the same as any row among the items. -/
theorem exists_same (equivalence : Equivalence same) (before : List Item) {r : Record}
    (member : r ∈ rowsOf items) :
    ∃ q ∈ rowsOf before ++ rowsOf (firstsAfter same before items), same q r := by
  induction items generalizing before with
  | nil => cases member
  | cons item rest ih =>
    have later (found : r ∈ rowsOf rest) := ih (before ++ [item]) found
    simp only [rowsOf_append, List.mem_append] at later ⊢
    cases item with
    | error e =>
      obtain ⟨q, (front | absent) | kept, alike⟩ := later member
      · exact ⟨q, .inl front, alike⟩
      · cases absent
      · exact ⟨q, .inr (mem_firstsAfter_cons kept), alike⟩
    | ok s =>
      have next := exists_same_next equivalence.refl before s rest
      simp only [List.mem_append] at next
      rcases List.mem_cons.mp member with rfl | found
      · exact next
      · obtain ⟨q, (front | this) | kept, alike⟩ := later found
        · exact ⟨q, .inl front, alike⟩
        · obtain ⟨p, place, sameNext⟩ := next
          cases List.mem_singleton.mp this
          exact ⟨p, place, equivalence.trans sameNext alike⟩
        · exact ⟨q, .inr (mem_firstsAfter_cons kept), alike⟩

end Firsts

theorem exists_sameForm_snoc {before : List Item} {r s : Record} :
    (∃ q ∈ rowsOf (before ++ [.ok r]), q.SameForm s) ↔
      (∃ q ∈ rowsOf before, q.SameForm s) ∨ r.SameForm s := by
  rw [rowsOf_append, rowsOf_ok, rowsOf_nil]
  simp only [List.mem_append, List.mem_singleton, or_and_right, exists_or, exists_eq_left]

/-- The texts that were seen stand for the rows in front. -/
theorem unseen_eq {seen : Std.HashSet String} (before : List Item)
    (known : ∀ r : Record, seen.contains r.toJson = true ↔ ∃ q ∈ rowsOf before, q.SameForm r)
    (items : List Item) : unseen seen items = firstsAfter Record.SameForm before items := by
  induction items generalizing seen before with
  | nil => rfl
  | cons item rest ih =>
    rw [firstsAfter_cons]
    cases item with
    | error e =>
      rw [unseen, if_pos (show IsFirst Record.SameForm before (.error e) from trivial)]
      refine congrArg (Except.error e :: ·) (ih _ fun r => ?_)
      rw [known, rowsOf_append, rowsOf_error, rowsOf_nil, List.append_nil]
    | ok r =>
      have first : IsFirst Record.SameForm before (.ok r) ↔ ¬ seen.contains r.toJson = true := by
        rw [known]
        simp [IsFirst]
      by_cases contained : seen.contains r.toJson = true
      · rw [unseen, if_pos contained, if_neg fun new => first.mp new contained]
        refine ih _ fun s => ?_
        rw [exists_sameForm_snoc, ← known]
        refine ⟨Or.inl, Or.rec id fun same => ?_⟩
        rwa [← Record.toJson_eq_iff.mpr same]
      · rw [unseen, if_neg contained, if_pos (first.mpr contained)]
        refine congrArg (Except.ok r :: ·) (ih _ fun s => ?_)
        rw [exists_sameForm_snoc, ← known, Std.HashSet.contains_insert, Bool.or_eq_true,
          beq_iff_eq, Record.toJson_eq_iff, or_comm]

theorem sameForm_equivalence : Equivalence Record.SameForm :=
  ⟨fun _ => rfl, Eq.symm, Eq.trans⟩

/-- The rows that are left are those that no row in front of them has the form of, each in its
place and every error in its own. So no two rows that are left have one form, and the form of
every row is left. -/
theorem distinct_eq_firsts (items : List Item) :
    distinct items = firsts Record.SameForm items ∧
      (rowsOf (distinct items)).Pairwise (fun q r => ¬ q.SameForm r) ∧
      ∀ r ∈ rowsOf items, ∃ q ∈ rowsOf (distinct items), q.SameForm r := by
  have kept : distinct items = firsts Record.SameForm items := unseen_eq [] (by simp) items
  refine ⟨kept, ?_, fun r member => ?_⟩
  · rw [kept]
    exact pairwise_firstsAfter [] items
  · rw [kept]
    exact exists_same sameForm_equivalence [] member

/-- Equal rows are both left when their fields stand in different orders. -/
theorem not_distinct_eq_firsts :
    ¬ ∀ items, distinct items = firsts (fun q r => q.sameAs r = true) items := by
  intro all
  have first := all [.ok ⟨[("a", .int 1), ("b", .int 2)]⟩, .ok ⟨[("b", .int 2), ("a", .int 1)]⟩]
  rw [distinct, unseen_eq [] (by simp)] at first
  have lengths := congrArg List.length first
  exact absurd lengths (by decide +kernel)

end Rows

end RecordQuery
