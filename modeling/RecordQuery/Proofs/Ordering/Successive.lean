import Mathlib.Data.List.Perm.Basic
import RecordQuery.Proofs.Ordering.Keys

namespace RecordQuery

section

variable {α : Type} {order first second : α → α → Ordering} {as bs : List α}

namespace IsPreorderOn

theorem self (preorder : IsPreorderOn order as) {a : α} (ha : a ∈ as) : order a a = .eq := by
  have turned := preorder.swap a ha a ha
  cases same : order a a with
  | eq => rfl
  | lt => rw [same] at turned; cases turned
  | gt => rw [same] at turned; cases turned

/-- Elements that tie with one of them are side by side. -/
theorem level (preorder : IsPreorderOn order as) {a b c : α} (ha : a ∈ as) (hb : b ∈ as)
    (hc : c ∈ as) (left : order c a = .eq) (right : order c b = .eq) : order a b ≠ .lt := by
  rw [preorder.tied hc ha hb left right]
  decide

end IsPreorderOn

/-- A list in line is determined by its elements and by how those of them follow each other that
are side by side. -/
theorem eq_of_inLine (preorder : IsPreorderOn order as) (perm : as.Perm bs)
    (left : as.Pairwise fun a b => order a b ≠ .gt) (right : bs.Pairwise fun a b => order a b ≠ .gt)
    (ties : ∀ a ∈ as, as.filter (fun b => order a b == .eq) = bs.filter fun b => order a b == .eq) :
    as = bs := by
  induction as generalizing bs with
  | nil => exact perm.nil_eq
  | cons a as ih =>
    cases bs with
    | nil => exact perm.eq_nil
    | cons b bs =>
      have ha : a ∈ a :: as := List.mem_cons_self ..
      have hb : b ∈ a :: as := perm.mem_iff.mpr (List.mem_cons_self ..)
      obtain ⟨aFront, aLine⟩ := List.pairwise_cons.mp left
      obtain ⟨bFront, bLine⟩ := List.pairwise_cons.mp right
      have same : a = b := by
        by_cases other : a = b
        · exact other
        have inAs := (List.mem_cons.mp hb).resolve_left fun same => other same.symm
        have inBs := (List.mem_cons.mp (perm.mem_iff.mp ha)).resolve_left other
        have level : order a b = .eq := by
          have backward := bFront a inBs
          rw [preorder.swap b hb a ha] at backward
          cases forward : order a b with
          | eq => rfl
          | lt => rw [forward] at backward; exact absurd rfl backward
          | gt => exact absurd forward (aFront b inAs)
        have heads := ties a ha
        rw [List.filter_cons_of_pos (by rw [preorder.self ha]; rfl),
          List.filter_cons_of_pos (by rw [level]; rfl)] at heads
        exact (List.cons.inj heads).1
      subst same
      have below : ∀ c ∈ as,
          as.filter (fun d => order c d == .eq) = bs.filter fun d => order c d == .eq := by
        intro c member
        have both := ties c (List.mem_cons_of_mem _ member)
        rw [List.filter_cons, List.filter_cons] at both
        split at both
        · exact (List.cons.inj both).2
        · exact both
      rw [ih (preorder.mono (List.subset_cons_self a as)) perm.cons_inv aLine bLine below]

/-- A list in the line of a first order, and of a second one wherever the first one leaves elements
side by side, is in the line of both. -/
theorem pairwise_then (line : as.Pairwise fun a b => first a b ≠ .gt)
    (within : ∀ a ∈ as, (as.filter fun b => first a b == .eq).Pairwise fun b c => second b c ≠ .gt)
    (preorder : IsPreorderOn first as) :
    as.Pairwise fun a b => (first a b).then (second a b) ≠ .gt := by
  rw [List.pairwise_iff_forall_sublist] at line ⊢
  intro a b pair
  have ha : a ∈ as := pair.subset (List.mem_cons_self ..)
  cases compared : first a b with
  | lt => exact fun clash : Ordering.lt = .gt => nomatch clash
  | gt => exact absurd compared (line pair)
  | eq =>
    have kept := pair.filter fun c => first a c == .eq
    rw [List.filter_cons_of_pos (by rw [preorder.self ha]; rfl),
      List.filter_cons_of_pos (by rw [compared]; rfl), List.filter_nil] at kept
    exact List.pairwise_iff_forall_sublist.mp (within a ha) kept

/-- Sorting by two orders at once is the same as sorting by the second one and then by the first
one, which leaves the elements as the second one has put them wherever it does not decide. -/
theorem stableSort_then (preorder : IsPreorderOn first as) (next : IsPreorderOn second as) :
    stableSort (fun a b => (first a b).then (second a b)) as =
      stableSort first (stableSort second as) := by
  have inner := stableSort_perm second as
  have outer := (stableSort_perm first (stableSort second as)).trans inner
  have whole := stableSort_perm (fun a b => (first a b).then (second a b)) as
  have sorted : IsPreorderOn first (stableSort second as) := preorder.mono inner.subset
  have both := preorder.thenBy next
  refine eq_of_inLine (both.mono whole.subset) (whole.trans outer.symm) (pairwise_stableSort both)
    (pairwise_then (pairwise_stableSort sorted) (fun a ha => ?_) (preorder.mono outer.subset))
    fun c hc => ?_
  · have kept : (stableSort first (stableSort second as)).filter (fun b => first a b == .eq) =
        (stableSort second as).filter fun b => first a b == .eq :=
      filter_stableSort fun b hb c hc left right =>
        preorder.level (inner.subset hb) (inner.subset hc) (outer.subset ha) (beq_iff_eq.mp left)
          (beq_iff_eq.mp right)
    rw [kept]
    exact (pairwise_stableSort next).filter _
  · -- A class of elements that no order tells apart is left as it is by every one of the sorts.
    have inside := whole.subset hc
    have tied {b : α} (together : ((first c b).then (second c b) == .eq) = true) :
        first c b = .eq ∧ second c b = .eq :=
      Ordering.then_eq_eq.mp (beq_iff_eq.mp together)
    rw [filter_stableSort fun a ha b hb left right =>
        both.level ha hb inside (beq_iff_eq.mp left) (beq_iff_eq.mp right),
      filter_stableSort fun a ha b hb left right =>
        preorder.level (inner.subset ha) (inner.subset hb) inside (tied left).1 (tied right).1,
      filter_stableSort fun a ha b hb left right =>
        next.level ha hb inside (tied left).2 (tied right).2]

end

namespace Rows

/-- Sorting by several keys at once is the same as sorting by one key after the other, from the last
one to the first one. -/
theorem stableSort_orderOf {keys : List OrderKey} {rows : List Record}
    (compares : ∀ key ∈ keys, key.Compares rows) :
    stableSort (orderOf keys) rows =
      keys.foldr (fun key sorted => stableSort key.order sorted) rows := by
  induction keys with
  | nil =>
    have kept : (stableSort (orderOf []) rows).filter (fun _ => true) = rows.filter fun _ => true :=
      filter_stableSort fun _ _ _ _ _ _ => nofun
    rwa [List.filter_true, List.filter_true] at kept
  | cons key keys ih =>
    obtain ⟨first, rest⟩ := List.forall_mem_cons.mp compares
    rw [List.foldr_cons, ← ih rest]
    exact stableSort_then first.isPreorderOn (isPreorderOn_orderOf rest)

end Rows

end RecordQuery
