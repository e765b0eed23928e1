import RecordQuery.Proofs.Value.Preorder
import RecordQuery.Rows.Ordering

namespace RecordQuery

variable {α : Type} {order : α → α → Ordering} {as : List α}

/-- An order that puts the elements of a list in line, some of them maybe side by side: exchanging
two of them turns it round, and it carries over. -/
structure IsPreorderOn (order : α → α → Ordering) (as : List α) : Prop where
  swap : ∀ a ∈ as, ∀ b ∈ as, order a b = (order b a).swap
  trans : ∀ a ∈ as, ∀ b ∈ as, ∀ c ∈ as, order a b ≠ .gt → order b c ≠ .gt → order a c ≠ .gt

instance (order : α → α → Ordering) (as : List α) : Decidable (IsPreorderOn order as) :=
  decidable_of_iff
    ((∀ a ∈ as, ∀ b ∈ as, order a b = (order b a).swap) ∧
      ∀ a ∈ as, ∀ b ∈ as, ∀ c ∈ as, order a b ≠ .gt → order b c ≠ .gt → order a c ≠ .gt)
    ⟨fun both => ⟨both.1, both.2⟩, fun preorder => ⟨preorder.swap, preorder.trans⟩⟩

namespace IsPreorderOn

theorem mono {bs : List α} (preorder : IsPreorderOn order as) (sub : bs ⊆ as) :
    IsPreorderOn order bs where
  swap a ha b hb := preorder.swap a (sub ha) b (sub hb)
  trans a ha b hb c hc := preorder.trans a (sub ha) b (sub hb) c (sub hc)

theorem comap {β : Type} {f : β → α} {bs : List β} (preorder : IsPreorderOn order (bs.map f)) :
    IsPreorderOn (fun a b => order (f a) (f b)) bs where
  swap _ ha _ hb := preorder.swap _ (List.mem_map_of_mem ha) _ (List.mem_map_of_mem hb)
  trans _ ha _ hb _ hc := preorder.trans _ (List.mem_map_of_mem ha) _ (List.mem_map_of_mem hb) _
    (List.mem_map_of_mem hc)

theorem flip (preorder : IsPreorderOn order as) : IsPreorderOn (fun a b => order b a) as where
  swap a ha b hb := preorder.swap b hb a ha
  trans a ha b hb c hc first second := preorder.trans c hc b hb a ha second first

theorem ne_gt_of_ne_lt (preorder : IsPreorderOn order as) {a b : α} (ha : a ∈ as) (hb : b ∈ as)
    (apart : order a b ≠ .lt) : order b a ≠ .gt := by
  rw [preorder.swap b hb a ha]
  cases first : order a b with
  | lt => exact absurd first apart
  | eq => decide
  | gt => decide

/-- Three elements lie on a line. Every way round the three of them tells something. -/
theorem onLine (preorder : IsPreorderOn order as) {a b c : α} (ha : a ∈ as) (hb : b ∈ as)
    (hc : c ∈ as) : OnLine (order a b) (order b c) (order a c) := by
  have abc := preorder.trans a ha b hb c hc
  have cba := preorder.trans c hc b hb a ha
  have bac := preorder.trans b hb a ha c hc
  have cab := preorder.trans c hc a ha b hb
  have acb := preorder.trans a ha c hc b hb
  have bca := preorder.trans b hb c hc a ha
  rw [preorder.swap b hb a ha] at cba bac bca
  rw [preorder.swap c hc b hb] at cba cab acb
  rw [preorder.swap c hc a ha] at cba cab bca
  cases ab : order a b <;> cases bc : order b c <;> cases ac : order a c <;>
    simp_all [OnLine]

theorem of_onLine (swap : ∀ a ∈ as, ∀ b ∈ as, order a b = (order b a).swap)
    (onLine : ∀ a ∈ as, ∀ b ∈ as, ∀ c ∈ as, OnLine (order a b) (order b c) (order a c)) :
    IsPreorderOn order as where
  swap := swap
  trans a ha b hb c hc first second := (onLine a ha b hb c hc).ne_gt first second

/-- A second order may tell apart what the first one leaves side by side. -/
theorem thenBy {second : α → α → Ordering} (preorder : IsPreorderOn order as)
    (next : IsPreorderOn second as) :
    IsPreorderOn (fun a b => (order a b).then (second a b)) as := by
  refine of_onLine (fun a ha b hb => ?_) fun a ha b hb c hc => ?_
  · rw [preorder.swap a ha b hb, next.swap a ha b hb, Ordering.swap_then]
  · exact (preorder.onLine ha hb hc).thenBy fun _ _ => next.onLine ha hb hc

theorem tied {a b c : α} (preorder : IsPreorderOn order as) (ha : a ∈ as) (hb : b ∈ as)
    (hc : c ∈ as) (first : order a b = .eq) (second : order a c = .eq) : order b c = .eq := by
  have back : order b a = .eq := by rw [preorder.swap b hb a ha, first]; rfl
  have line := preorder.onLine hb ha hc
  rw [back, second] at line
  exact line

end IsPreorderOn

theorem insertBehind_perm (order : α → α → Ordering) (a : α) (sorted : List α) :
    (insertBehind order a sorted).Perm (a :: sorted) := by
  induction sorted with
  | nil => exact .refl _
  | cons b rest ih =>
    rw [insertBehind]
    split
    · exact (ih.cons b).trans (.swap a b rest)
    · exact .refl _

theorem foldl_insertBehind_perm (order : α → α → Ordering) (as sorted : List α) :
    (as.foldl (fun sorted a => insertBehind order a sorted) sorted).Perm (as ++ sorted) := by
  induction as generalizing sorted with
  | nil => exact .refl _
  | cons a rest ih =>
    have inserted := (insertBehind_perm order a sorted).append_left rest
    exact ((ih (insertBehind order a sorted)).trans inserted).trans List.perm_middle

/-- Sorting loses no element and makes none up. -/
theorem stableSort_perm (order : α → α → Ordering) (as : List α) :
    (stableSort order as).Perm as := by
  have sorted := foldl_insertBehind_perm order as []
  rw [List.append_nil] at sorted
  exact (List.reverse_perm _).trans sorted

/-- The list that is inserted into is kept reversed: nothing in it comes before what stands behind
it. -/
theorem pairwise_insertBehind {a : α} {sorted : List α}
    (preorder : IsPreorderOn order (a :: sorted))
    (reversed : sorted.Pairwise fun b c => order c b ≠ .gt) :
    (insertBehind order a sorted).Pairwise fun b c => order c b ≠ .gt := by
  induction sorted with
  | nil => exact List.pairwise_singleton ..
  | cons b rest ih =>
    obtain ⟨front, behind⟩ := List.pairwise_cons.mp reversed
    have ha : a ∈ a :: b :: rest := List.mem_cons_self ..
    have hb : b ∈ a :: b :: rest := List.mem_cons_of_mem _ (List.mem_cons_self ..)
    rw [insertBehind]
    split
    · rename_i less
      have kept : IsPreorderOn order (a :: rest) :=
        preorder.mono (List.cons_subset_cons a (List.subset_cons_self b rest))
      refine List.pairwise_cons.mpr ⟨fun c member => ?_, ih kept behind⟩
      rcases List.mem_cons.mp ((insertBehind_perm order a rest).mem_iff.mp member) with same | old
      · rw [same, less]
        decide
      · exact front c old
    · rename_i notLess
      have first := preorder.ne_gt_of_ne_lt ha hb notLess
      refine List.pairwise_cons.mpr ⟨fun c member => ?_, reversed⟩
      rcases List.mem_cons.mp member with same | old
      · rwa [same]
      · have hc : c ∈ a :: b :: rest := List.mem_cons_of_mem _ member
        exact preorder.trans c hc b hb a ha (front c old) first

theorem pairwise_foldl_insertBehind (as : List α) {sorted : List α}
    (preorder : IsPreorderOn order (as ++ sorted))
    (reversed : sorted.Pairwise fun b c => order c b ≠ .gt) :
    (as.foldl (fun sorted a => insertBehind order a sorted) sorted).Pairwise
      fun b c => order c b ≠ .gt := by
  induction as generalizing sorted with
  | nil => exact reversed
  | cons a rest ih =>
    have moved : (rest ++ insertBehind order a sorted).Perm (a :: rest ++ sorted) :=
      ((insertBehind_perm order a sorted).append_left rest).trans List.perm_middle
    refine ih (preorder.mono moved.subset) (pairwise_insertBehind (preorder.mono ?_) reversed)
    exact List.cons_subset_cons a (List.subset_append_right rest sorted)

theorem pairwise_stableSort (preorder : IsPreorderOn order as) :
    (stableSort order as).Pairwise fun a b => order a b ≠ .gt := by
  have whole : IsPreorderOn order (as ++ []) := by rwa [List.append_nil]
  exact List.pairwise_reverse.mpr (pairwise_foldl_insertBehind as whole .nil)

/-- An element is put in front of those that it does not come before, so among elements that are
side by side it is as if it were put in front of all. -/
theorem filter_insertBehind {p : α → Bool} {a : α} {sorted : List α}
    (level : p a = true → ∀ b ∈ sorted, p b = true → order a b ≠ .lt) :
    (insertBehind order a sorted).filter p = (a :: sorted).filter p := by
  induction sorted with
  | nil => rfl
  | cons b rest ih =>
    have later := ih fun chosen c member => level chosen c (List.mem_cons_of_mem _ member)
    rw [insertBehind]
    split
    · rename_i less
      have notBoth : p a = true → p b = false := fun chosen =>
        Bool.eq_false_iff.mpr fun both => level chosen b (List.mem_cons_self ..) both less
      rw [List.filter_cons, later]
      by_cases chosen : p a = true
      · simp [chosen, notBoth chosen]
      · simp [List.filter_cons, chosen]
    · rfl

theorem filter_foldl_insertBehind {p : α → Bool} (as : List α) {sorted : List α}
    (level : ∀ a ∈ as ++ sorted, ∀ b ∈ as ++ sorted, p a = true → p b = true → order a b ≠ .lt) :
    (as.foldl (fun sorted a => insertBehind order a sorted) sorted).filter p =
      (as.reverse ++ sorted).filter p := by
  induction as generalizing sorted with
  | nil => rfl
  | cons a rest ih =>
    have moved : (rest ++ insertBehind order a sorted).Perm (a :: rest ++ sorted) :=
      ((insertBehind_perm order a sorted).append_left rest).trans List.perm_middle
    have inserted : (insertBehind order a sorted).filter p = (a :: sorted).filter p :=
      filter_insertBehind fun chosen b member both =>
        level a (List.mem_cons_self ..) b (List.mem_append_right _ member) chosen both
    rw [List.foldl_cons, ih fun b hb c hc => level b (moved.subset hb) c (moved.subset hc),
      List.filter_append, inserted, ← List.filter_append, List.reverse_cons, List.append_assoc]
    rfl

/-- Sorting leaves elements in their order that are side by side. -/
theorem filter_stableSort {p : α → Bool}
    (level : ∀ a ∈ as, ∀ b ∈ as, p a = true → p b = true → order a b ≠ .lt) :
    (stableSort order as).filter p = as.filter p := by
  have inserted : (as.foldl (fun sorted a => insertBehind order a sorted) []).filter p =
      (as.reverse ++ []).filter p :=
    filter_foldl_insertBehind as (by simpa only [List.append_nil] using level)
  rw [stableSort, List.filter_reverse, inserted, List.append_nil, List.filter_reverse,
    List.reverse_reverse]

section

variable {β : Type} (order) (f : β → α)

theorem map_insertBehind (b : β) (sorted : List β) :
    (insertBehind (fun a b => order (f a) (f b)) b sorted).map f =
      insertBehind order (f b) (sorted.map f) := by
  induction sorted with
  | nil => rfl
  | cons c rest ih =>
    rw [insertBehind, List.map_cons, insertBehind]
    split
    · rw [List.map_cons, ih]
    · rfl

theorem map_foldl_insertBehind (bs sorted : List β) :
    (bs.foldl (fun sorted b => insertBehind (fun a b => order (f a) (f b)) b sorted) sorted).map f =
      (bs.map f).foldl (fun sorted a => insertBehind order a sorted) (sorted.map f) := by
  induction bs generalizing sorted with
  | nil => rfl
  | cons b rest ih => rw [List.foldl_cons, ih, map_insertBehind, List.map_cons, List.foldl_cons]

/-- What is sorted by what it stands for can be replaced by it before or after. -/
theorem map_stableSort (bs : List β) :
    (stableSort (fun a b => order (f a) (f b)) bs).map f = stableSort order (bs.map f) := by
  rw [stableSort, stableSort, List.map_reverse, map_foldl_insertBehind, List.map_nil]

end

end RecordQuery
