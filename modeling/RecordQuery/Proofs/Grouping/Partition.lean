import RecordQuery.Proofs.FieldPath.Lenient
import RecordQuery.Proofs.Grouping.Bucket
import RecordQuery.Proofs.Json.Written

namespace RecordQuery

theorem nodup_eraseDups {α : Type} [BEq α] [LawfulBEq α] : (l : List α) → l.eraseDups.Nodup
  | [] => List.nodup_nil
  | a :: rest => by
    rw [List.eraseDups_cons]
    refine List.nodup_cons.mpr ⟨fun member => ?_, nodup_eraseDups _⟩
    simpa using List.mem_eraseDups.mp member
termination_by l => l.length
decreasing_by exact Nat.lt_succ_of_le (List.length_filter_le _ _)

theorem eraseDups_concat {α : Type} [BEq α] [LawfulBEq α] (l : List α) (a : α) :
    (l ++ [a]).eraseDups = if a ∈ l.eraseDups then l.eraseDups else l.eraseDups ++ [a] := by
  rw [List.eraseDups_append]
  by_cases seen : a ∈ l <;> simp [List.removeAll, List.eraseDups_cons, seen]

namespace Rows

/-- The values that a row is grouped by. -/
def tupleOf (paths : List FieldPath) (r : Record) : List Value :=
  paths.map r.valueAt

/-- The tuples of rows, each one where it first appears. -/
def tuples (paths : List FieldPath) (rows : List Record) : List (List Value) :=
  (rows.map (tupleOf paths)).eraseDups

/-- The rows that carry a tuple, in their order. -/
def members (paths : List FieldPath) (rows : List Record) (tuple : List Value) : List Record :=
  rows.filter fun r => tupleOf paths r = tuple

/-- The tuples that groups are made for. Rows that are not grouped make one group, also if there
are none. -/
def groupTuples (fields : List SelectedField) (groupBy : List FieldPath) (rows : List Record) :
    List (List Value) :=
  if rows.isEmpty && groupBy.isEmpty then [[]] else tuples (groupPaths groupBy fields) rows

section

variable {paths : List FieldPath} {rows : List Record} {tuple : List Value}

theorem mem_tuples : tuple ∈ tuples paths rows ↔ ∃ r ∈ rows, tupleOf paths r = tuple := by
  rw [tuples, List.mem_eraseDups, List.mem_map]

theorem nodup_tuples : (tuples paths rows).Nodup :=
  nodup_eraseDups _

theorem tuples_concat (r : Record) :
    tuples paths (rows ++ [r]) =
      if tupleOf paths r ∈ tuples paths rows then tuples paths rows
      else tuples paths rows ++ [tupleOf paths r] := by
  rw [tuples, List.map_append, List.map_singleton, eraseDups_concat]
  rfl

theorem members_append (later : List Record) :
    members paths (rows ++ later) tuple = members paths rows tuple ++ members paths later tuple :=
  List.filter_append ..

theorem members_own (r : Record) : members paths [r] (tupleOf paths r) = [r] := by
  simp [members]

theorem members_other {r : Record} (other : tupleOf paths r ≠ tuple) :
    members paths [r] tuple = [] := by
  simp [members, other]

theorem members_ne_nil (member : tuple ∈ tuples paths rows) : members paths rows tuple ≠ [] := by
  obtain ⟨r, here, same⟩ := mem_tuples.mp member
  exact List.ne_nil_of_mem (List.mem_filter.mpr ⟨here, decide_eq_true same⟩)

theorem members_eq_nil (absent : tuple ∉ tuples paths rows) : members paths rows tuple = [] := by
  refine List.filter_eq_nil_iff.mpr fun r here same => ?_
  exact absent (mem_tuples.mpr ⟨r, here, of_decide_eq_true same⟩)

end

/-- What the row of a tuple is looked up by. -/
def keyOf (tuple : List Value) : List KeyPart :=
  tuple.map KeyPart.ofValue

theorem groupKey_eq (paths : List FieldPath) (r : Record) :
    groupKey paths r = .ok (keyOf (tupleOf paths r)) := by
  rw [keyOf, tupleOf, List.map_map]
  exact mapM_ok fun path _ => by rw [r.lookupPath_lenient]; rfl

theorem ofValue_injective {v w : Value} (first : v.WithoutDoubles) (second : w.WithoutDoubles)
    (same : KeyPart.ofValue v = KeyPart.ofValue w) : v = w := by
  unfold KeyPart.ofValue at same
  split at same <;> split at same
  · rfl
  · cases same
  · cases same
  · exact Json.write_injective first second (KeyPart.written.inj same)

/-- Tuples of one key are one tuple, since JSON keeps values without doubles apart. -/
theorem keyOf_injective {tuple other : List Value} (first : ∀ v ∈ tuple, v.WithoutDoubles)
    (second : ∀ v ∈ other, v.WithoutDoubles) (same : keyOf tuple = keyOf other) :
    tuple = other := by
  induction tuple generalizing other with
  | nil =>
    cases other with
    | nil => rfl
    | cons => cases same
  | cons v rest ih =>
    cases other with
    | nil => cases same
    | cons w others =>
      obtain ⟨here, later⟩ := List.cons.inj same
      rw [ofValue_injective (first v (List.mem_cons_self ..)) (second w (List.mem_cons_self ..))
        here, ih (fun u member => first u (List.mem_cons_of_mem _ member))
        (fun u member => second u (List.mem_cons_of_mem _ member)) later]

/-- The groups that rows with these tuples have been put into. -/
def groupsOf (fields : List SelectedField) (group : List Value → List Record)
    (tuples : List (List Value)) : List (List KeyPart × Bucket) :=
  tuples.map fun tuple => (keyOf tuple, Bucket.ofGroup fields (group tuple))

section

variable {fields : List SelectedField} {group : List Value → List Record}
  {seen : List (List Value)} {tuple : List Value} {r : Record}

theorem addToGroup_new (apart : ∀ other ∈ seen, keyOf other ≠ keyOf tuple)
    (succeeds : ∀ f ∈ fields, ∃ gathered, f.gatheredOf [r] = .ok gathered) :
    addToGroup fields (keyOf tuple) r (groupsOf fields group seen) =
      .ok (groupsOf fields group seen ++ [(keyOf tuple, Bucket.ofGroup fields [r])]) := by
  induction seen with
  | nil =>
    change ((Bucket.start fields r).add r).map _ = _
    rw [Bucket.add_start succeeds]
    rfl
  | cons other rest ih =>
    have later := ih fun another member => apart another (List.mem_cons_of_mem _ member)
    rw [groupsOf, List.map_cons, addToGroup, if_neg (apart other (List.mem_cons_self ..))]
    rw [groupsOf] at later
    rw [later]
    rfl

theorem addToGroup_seen (member : tuple ∈ seen) (distinct : seen.Nodup)
    (apart : ∀ other ∈ seen, keyOf other = keyOf tuple → other = tuple)
    (nonempty : group tuple ≠ [])
    (succeeds : ∀ f ∈ fields, ∃ gathered, f.gatheredOf (group tuple ++ [r]) = .ok gathered) :
    addToGroup fields (keyOf tuple) r (groupsOf fields group seen) =
      .ok (groupsOf fields (fun other => if other = tuple then group tuple ++ [r] else group other)
        seen) := by
  induction seen with
  | nil => cases member
  | cons other rest ih =>
    obtain ⟨absent, distinct⟩ := List.nodup_cons.mp distinct
    rw [groupsOf, List.map_cons, addToGroup]
    by_cases same : other = tuple
    · subst same
      have kept : ∀ another ∈ rest, another ≠ other := fun another here equal =>
        absent (equal ▸ here)
      rw [if_pos rfl, Bucket.add_ofGroup nonempty succeeds, groupsOf, List.map_cons, if_pos rfl]
      refine congrArg (fun groups => Except.ok (_ :: groups)) ?_
      exact List.map_congr_left fun another here => by rw [if_neg (kept another here)]
    · have different : keyOf other ≠ keyOf tuple := fun equal =>
        same (apart other (List.mem_cons_self ..) equal)
      have member := (List.mem_cons.mp member).resolve_left (Ne.symm same)
      have later := ih member distinct fun another here =>
        apart another (List.mem_cons_of_mem _ here)
      rw [groupsOf] at later
      rw [if_neg different, later, groupsOf, groupsOf, List.map_cons, if_neg same]
      rfl

end

/-- Whether no run of an aggregate over the rows of a tuple fails. -/
def Gathers (fields : List SelectedField) (group : List Record) : Prop :=
  ∀ f ∈ fields, ∃ gathered, f.gatheredOf group = .ok gathered

theorem Gathers.of_append {fields : List SelectedField} {group later : List Record}
    (gathers : Gathers fields (group ++ later)) : Gathers fields group := fun f member =>
  let ⟨_, succeeds⟩ := gathers f member
  SelectedField.gatheredOf_of_append succeeds

/-- Reading one more row keeps every tuple with exactly the rows that carry it. -/
theorem addToGroup_row {fields : List SelectedField} {paths : List FieldPath}
    {rows : List Record} {r : Record}
    (plain : ∀ row ∈ rows ++ [r], ∀ v ∈ tupleOf paths row, v.WithoutDoubles)
    (gathers : Gathers fields (members paths (rows ++ [r]) (tupleOf paths r))) :
    addToGroup fields (keyOf (tupleOf paths r)) r
        (groupsOf fields (members paths rows) (tuples paths rows)) =
      .ok (groupsOf fields (members paths (rows ++ [r])) (tuples paths (rows ++ [r]))) := by
  have apart : ∀ other ∈ tuples paths rows, keyOf other = keyOf (tupleOf paths r) →
      other = tupleOf paths r := by
    intro other seen same
    obtain ⟨row, here, rfl⟩ := mem_tuples.mp seen
    exact keyOf_injective (plain row (List.mem_append_left _ here)) (plain r (by simp)) same
  rw [members_append, members_own] at gathers
  rw [tuples_concat]
  split
  · rename_i seen
    rw [addToGroup_seen seen nodup_tuples apart (members_ne_nil seen) gathers]
    refine congrArg Except.ok (List.map_congr_left fun other _ => ?_)
    dsimp only
    by_cases same : other = tupleOf paths r
    · rw [if_pos same, same, members_append, members_own]
    · rw [if_neg same, members_append, members_other (Ne.symm same), List.append_nil]
  · rename_i absent
    rw [members_eq_nil absent, List.nil_append] at gathers
    rw [addToGroup_new (fun other seen same => absent (apart other seen same ▸ seen)) gathers]
    rw [groupsOf, groupsOf, List.map_append, List.map_singleton, members_append,
      members_eq_nil absent, members_own, List.nil_append]
    refine congrArg (fun groups => Except.ok (groups ++ _)) ?_
    refine List.map_congr_left fun other seen => ?_
    have different : tupleOf paths r ≠ other := fun same => absent (same ▸ seen)
    rw [members_append, members_other different, List.append_nil]

/-- Rows that have been read are grouped by their tuples, whatever has been read before. -/
theorem groupInto_rows {fields : List SelectedField} {paths : List FieldPath}
    (later : List Record) (rows : List Record)
    (plain : ∀ row ∈ rows ++ later, ∀ v ∈ tupleOf paths row, v.WithoutDoubles)
    (gathers : ∀ tuple ∈ tuples paths (rows ++ later),
      Gathers fields (members paths (rows ++ later) tuple)) :
    groupInto fields paths (groupsOf fields (members paths rows) (tuples paths rows))
        (later.map .ok) =
      .ok (groupsOf fields (members paths (rows ++ later)) (tuples paths (rows ++ later))) := by
  induction later generalizing rows with
  | nil => rw [List.append_nil]; rfl
  | cons r later ih =>
    have regroup : rows ++ r :: later = (rows ++ [r]) ++ later := by simp
    rw [regroup] at plain gathers ⊢
    have carried : tupleOf paths r ∈ tuples paths (rows ++ [r] ++ later) :=
      mem_tuples.mpr ⟨r, by simp, rfl⟩
    have step := addToGroup_row (fun row here => plain row (List.mem_append_left _ here))
      (Gathers.of_append (members_append later ▸ gathers _ carried))
    rw [List.map_cons, groupInto, groupKey_eq]
    simp only [step]
    exact ih (rows ++ [r]) plain gathers

end Rows

end RecordQuery
