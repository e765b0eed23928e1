import RecordQuery.Proofs.Except
import RecordQuery.Rows.Grouping

namespace RecordQuery

/-- The call of a field that takes all rows of a group together. -/
def SelectedField.aggregate? (f : SelectedField) : Option Call :=
  f.call?.filter Call.isAggregate

/-- The run of an aggregate over rows, one after the other. -/
def Accumulator.ofRows (call : Call) (rows : List Record) : Except QueryError Accumulator :=
  rows.foldlM Accumulator.add (.start call)

namespace SelectedField

/-- What a bucket holds for a field when it has gathered from a group of rows. -/
def gatheredOf (group : List Record) (f : SelectedField) : Except QueryError (Option Accumulator) :=
  match f.aggregate? with
  | some call => (Accumulator.ofRows call group).map some
  | none => .ok none

/-- The value of a field for a group of rows, as far as its output row is built. A field that is no
aggregate is that of the first row of the group. -/
def ofGroup (ambient : Ambient) (group : List Record) (built : Record) (f : SelectedField) :
    Except QueryError Value :=
  match f.aggregate? with
  | some call => (Accumulator.ofRows call group).map Accumulator.result
  | none => f.evaluate ambient (group.headD .empty) built

end SelectedField

namespace Rows

/-- Adds fields to the output row of a group of rows, one after the other. -/
def addGroupFields (ambient : Ambient) (group : List Record) (fields : List SelectedField)
    (built : Record) : Except QueryError Record :=
  fields.foldlM (fun built f => (f.ofGroup ambient group built).map (built.insert f.name)) built

/-- The output row of a group of rows. It stands on the first row when everything is selected. -/
def groupRow (ambient : Ambient) (selectAll : Bool) (fields : List SelectedField)
    (group : List Record) : Except QueryError Record :=
  addGroupFields ambient group fields (if selectAll then group.headD .empty else .empty)

end Rows

namespace Accumulator

theorem ofRows_append (call : Call) (group later : List Record) :
    ofRows call (group ++ later) = ofRows call group >>= later.foldlM add :=
  List.foldlM_append

/-- Goes on with a run, if there is one. -/
def addTo (r : Record) : Option Accumulator → Except QueryError (Option Accumulator)
  | none => .ok none
  | some a => (a.add r).map some

theorem isSome_addTo {r : Record} {held next : Option Accumulator}
    (added : addTo r held = .ok next) : next.isSome = held.isSome := by
  cases held with
  | none =>
    cases added
    rfl
  | some a =>
    obtain ⟨b, -, rfl⟩ := exists_of_map_ok added
    rfl

end Accumulator

namespace SelectedField

theorem gatheredOf_concat (f : SelectedField) (group : List Record) (r : Record) :
    f.gatheredOf (group ++ [r]) = f.gatheredOf group >>= Accumulator.addTo r := by
  unfold gatheredOf
  cases f.aggregate? with
  | none => rfl
  | some call =>
    simp only [Accumulator.ofRows_append]
    cases Accumulator.ofRows call group with
    | error e => rfl
    | ok a =>
      change ([r].foldlM Accumulator.add a).map some = Accumulator.addTo r (some a)
      rw [List.foldlM_cons, Accumulator.addTo]
      cases a.add r <;> rfl

/-- A run that succeeds over more rows has succeeded over fewer of them. -/
theorem gatheredOf_of_append {f : SelectedField} {group later : List Record}
    {gathered : Option Accumulator} (succeeds : f.gatheredOf (group ++ later) = .ok gathered) :
    ∃ before, f.gatheredOf group = .ok before := by
  unfold gatheredOf at succeeds ⊢
  cases aggregate : f.aggregate? with
  | none => exact ⟨none, rfl⟩
  | some call =>
    simp only [aggregate, Accumulator.ofRows_append] at succeeds ⊢
    obtain ⟨a, whole, -⟩ := exists_of_map_ok succeeds
    obtain ⟨b, run, -⟩ := exists_of_bind_ok whole
    exact ⟨some b, congrArg (Except.map some) run⟩

/-- What a bucket holds for a field whose run over a group has not failed. -/
def heldFor (group : List Record) (f : SelectedField) : Option Accumulator :=
  (f.gatheredOf group).toOption.join

theorem heldFor_of_ok {f : SelectedField} {group : List Record} {gathered : Option Accumulator}
    (succeeds : f.gatheredOf group = .ok gathered) : f.heldFor group = gathered := by
  rw [heldFor, succeeds]
  rfl

theorem addTo_heldFor {f : SelectedField} {group : List Record} {r : Record}
    (succeeds : ∃ gathered, f.gatheredOf (group ++ [r]) = .ok gathered) :
    Accumulator.addTo r (f.heldFor group) = .ok (f.heldFor (group ++ [r])) := by
  obtain ⟨gathered, now⟩ := succeeds
  obtain ⟨before, earlier⟩ := gatheredOf_of_append now
  rw [heldFor_of_ok now, heldFor_of_ok earlier]
  rw [gatheredOf_concat, earlier] at now
  exact now

end SelectedField

namespace Bucket

/-- The bucket of a group of rows. -/
def ofGroup (fields : List SelectedField) (group : List Record) : Bucket where
  first := group.headD .empty
  gathered := fields.map (SelectedField.heldFor group)

theorem start_gathered (fields : List SelectedField) (first : Record) :
    (start fields first).gathered = fields.map (SelectedField.heldFor []) := by
  refine List.map_congr_left fun f _ => ?_
  unfold SelectedField.heldFor SelectedField.gatheredOf SelectedField.aggregate?
  cases f.call? with
  | none => rfl
  | some call => cases aggregate : call.isAggregate <;> simp [Option.filter, aggregate] <;> rfl

theorem start_empty (fields : List SelectedField) : start fields .empty = ofGroup fields [] :=
  congrArg (Bucket.mk _) (start_gathered fields .empty)

theorem gather_eq_mapM (r : Record) (gathered : List (Option Accumulator)) :
    gather r gathered = gathered.mapM (Accumulator.addTo r) := by
  induction gathered with
  | nil => rfl
  | cons held rest ih =>
    rw [List.mapM_cons, ← ih]
    cases held with
    | none => rfl
    | some a =>
      rw [gather, Accumulator.addTo]
      cases a.add r <;> rfl

/-- Gathering from a row goes on with the run of each aggregate. -/
theorem gather_heldFor {fields : List SelectedField} {group : List Record} {r : Record}
    (succeeds : ∀ f ∈ fields, ∃ gathered, f.gatheredOf (group ++ [r]) = .ok gathered) :
    gather r (fields.map (SelectedField.heldFor group)) =
      .ok (fields.map (SelectedField.heldFor (group ++ [r]))) := by
  rw [gather_eq_mapM, List.mapM_map]
  exact mapM_ok fun f member => SelectedField.addTo_heldFor (succeeds f member)

theorem add_ofGroup {fields : List SelectedField} {group : List Record} {r : Record}
    (nonempty : group ≠ [])
    (succeeds : ∀ f ∈ fields, ∃ gathered, f.gatheredOf (group ++ [r]) = .ok gathered) :
    (ofGroup fields group).add r = .ok (ofGroup fields (group ++ [r])) := by
  unfold add ofGroup
  rw [gather_heldFor succeeds]
  cases group with
  | nil => exact absurd rfl nonempty
  | cons first rest => rfl

theorem add_start {fields : List SelectedField} {r : Record}
    (succeeds : ∀ f ∈ fields, ∃ gathered, f.gatheredOf [r] = .ok gathered) :
    (start fields r).add r = .ok (ofGroup fields [r]) := by
  unfold add
  rw [start_gathered, @gather_heldFor fields [] r succeeds]
  rfl

/-- The output row of a bucket is the one of the group that it has gathered from. -/
theorem row_ofGroup (ambient : Ambient) (selectAll : Bool) {fields : List SelectedField}
    {group : List Record}
    (succeeds : ∀ f ∈ fields, ∃ gathered, f.gatheredOf group = .ok gathered) :
    (ofGroup fields group).row ambient selectAll fields =
      Rows.groupRow ambient selectAll fields group := by
  have run : ∀ built, addFields ambient (group.headD .empty) fields
      (fields.map (SelectedField.heldFor group)) built =
      Rows.addGroupFields ambient group fields built := by
    induction fields with
    | nil => exact fun built => rfl
    | cons f rest ih =>
      intro built
      have later := ih fun g member => succeeds g (List.mem_cons_of_mem _ member)
      obtain ⟨gathered, now⟩ := succeeds f (List.mem_cons_self ..)
      rw [List.map_cons, SelectedField.heldFor_of_ok now, Rows.addGroupFields, List.foldlM_cons]
      unfold SelectedField.gatheredOf at now
      cases aggregate : f.aggregate? with
      | none =>
        simp only [aggregate] at now
        cases now
        have value : f.ofGroup ambient group built =
            f.evaluate ambient (group.headD .empty) built := by
          simp only [SelectedField.ofGroup, aggregate]
        rw [value, addFields]
        cases f.evaluate ambient (group.headD .empty) built with
        | error e => rfl
        | ok v => exact later _
      | some call =>
        simp only [aggregate] at now
        obtain ⟨a, result, rfl⟩ := exists_of_map_ok now
        have value : f.ofGroup ambient group built = .ok a.result := by
          simp only [SelectedField.ofGroup, aggregate, result]
          rfl
        rw [value, addFields]
        exact later _
  exact run _

/-- A bucket holds a run for each aggregate among the fields, and for no other field. -/
def Fits (fields : List SelectedField) (b : Bucket) : Prop :=
  b.gathered.map Option.isSome = fields.map SelectedField.isAggregate

theorem fits_start (fields : List SelectedField) (first : Record) :
    (start fields first).Fits fields := by
  rw [Fits, start, List.map_map]
  refine List.map_congr_left fun f _ => ?_
  obtain ⟨name, path | call, isAlias⟩ := f
  · rfl
  · change Option.isSome (if call.isAggregate then some (Accumulator.start call) else none) =
      call.isAggregate
    cases call.isAggregate <;> rfl

theorem Fits.length {fields : List SelectedField} {b : Bucket} (fits : b.Fits fields) :
    b.gathered.length = fields.length := by
  have same := congrArg List.length fits
  rwa [List.length_map, List.length_map] at same

theorem isSome_gather {r : Record} {held next : List (Option Accumulator)}
    (gathers : gather r held = .ok next) : next.map Option.isSome = held.map Option.isSome := by
  rw [gather_eq_mapM] at gathers
  induction held generalizing next with
  | nil =>
    cases gathers
    rfl
  | cons a rest ih =>
    obtain ⟨b, others, first, later, rfl⟩ := exists_of_mapM_cons_ok gathers
    rw [List.map_cons, List.map_cons, Accumulator.isSome_addTo first, ih later]

theorem Fits.add {fields : List SelectedField} {b b' : Bucket} {r : Record} (fits : b.Fits fields)
    (added : b.add r = .ok b') : b'.Fits fields := by
  obtain ⟨gathered, done, rfl⟩ := exists_of_map_ok added
  exact (isSome_gather done).trans fits

end Bucket

namespace Rows

variable {fields : List SelectedField} {groups groups' : List (List KeyPart × Bucket)}
  {key : List KeyPart} {r : Record}

theorem fits_addToGroup (fit : ∀ group ∈ groups, group.2.Fits fields)
    (added : addToGroup fields key r groups = .ok groups') :
    ∀ group ∈ groups', group.2.Fits fields := by
  induction groups generalizing groups' with
  | nil =>
    obtain ⟨b, first, rfl⟩ := exists_of_map_ok added
    exact List.forall_mem_singleton.mpr ((Bucket.fits_start fields r).add first)
  | cons group rest ih =>
    obtain ⟨k, b⟩ := group
    obtain ⟨here, others⟩ := List.forall_mem_cons.mp fit
    rw [addToGroup] at added
    split at added
    · obtain ⟨b', next, rfl⟩ := exists_of_map_ok added
      exact List.forall_mem_cons.mpr ⟨here.add next, others⟩
    · obtain ⟨rest', later, rfl⟩ := exists_of_map_ok added
      exact List.forall_mem_cons.mpr ⟨here, ih others later⟩

/-- The groups that rows are put into have a run for each aggregate. -/
theorem fits_groupInto {paths : List FieldPath} {items : List Item}
    (fit : ∀ group ∈ groups, group.2.Fits fields)
    (grouped : groupInto fields paths groups items = .ok groups') :
    ∀ group ∈ groups', group.2.Fits fields := by
  induction items generalizing groups with
  | nil =>
    cases grouped
    exact fit
  | cons item rest ih =>
    cases item with
    | error e => cases grouped
    | ok r =>
      rw [groupInto] at grouped
      split at grouped
      · cases grouped
      split at grouped
      · cases grouped
      · rename_i added
        exact ih (fits_addToGroup fit added) grouped

/-- The groups that a stage makes its rows of. Without rows and without keys to group by there is
one that has gathered nothing. -/
theorem fits_buckets {paths : List FieldPath} {items : List Item}
    (grouped : groupInto fields paths [] items = .ok groups) (groupBy : List FieldPath) :
    ∀ b ∈ (if groups.isEmpty && groupBy.isEmpty then [Bucket.start fields .empty]
      else groups.map Prod.snd), b.Fits fields := by
  split
  · exact List.forall_mem_singleton.mpr (Bucket.fits_start fields .empty)
  · exact List.forall_mem_map.mpr (fits_groupInto (List.forall_mem_nil _) grouped)

end Rows

end RecordQuery
