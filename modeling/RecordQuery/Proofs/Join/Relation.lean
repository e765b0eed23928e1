import RecordQuery.Proofs.FieldPath.Lenient
import RecordQuery.Proofs.Join.Index
import RecordQuery.Proofs.Rows.Collect

namespace RecordQuery

namespace JoinTerms

/-- Whether the condition of a join holds of a left and a right row. -/
def Matches (terms : JoinTerms) (left right : Record) : Bool :=
  terms.keys.2.1.apply (left.valueAt terms.keys.1) (right.valueAt terms.keys.2.2)

/-- A left row with a right one under the alias, or with its fields written over those of the left
row. Without a right row there is null under the alias. -/
def attach (terms : JoinTerms) (left : Record) (right : Option Record) : Record :=
  match terms.aliasName, right with
  | some aliasName, some r => left.insert aliasName (.record r.fields)
  | some aliasName, none => left.insert aliasName .null
  | none, some r => left.merge r
  | none, none => left

/-- What a join gives for a left item. A left row that no right row matches is kept in a left or
full join, with the fields of the first right row as nulls. -/
def leftItems (terms : JoinTerms) (rows : List Record) : Item → List Item
  | .error e => [.error e]
  | .ok left =>
    match rows.filter (terms.Matches left) with
    | [] =>
      if terms.kind = .left ∨ terms.kind = .full then
        [.ok (terms.attach left (rows.head?.map Record.nullFilled))]
      else []
    | found => found.map fun right => .ok (terms.attach left (some right))

/-- What a join gives behind its left items: in a right or full join, the right rows that match no
left row, with the fields of the first left row as nulls. -/
def rightItems (terms : JoinTerms) (rows : List Record) (left : List Item) : List Item :=
  if terms.kind = .right ∨ terms.kind = .full then
    let template := ((Rows.rowsOf left).head?.map Record.nullFilled).getD .empty
    (rows.filter fun right => !(Rows.rowsOf left).any fun l => terms.Matches l right).map
      fun right => .ok (terms.attach template (some right))
  else []

/-- The items of a join, as they follow from its condition alone. -/
def relation (terms : JoinTerms) (rows : List Record) (left : List Item) : List Item :=
  left.flatMap (terms.leftItems rows) ++ terms.rightItems rows left

end JoinTerms

/-- Right rows that have been read in their order, with the values at a path as their keys. -/
structure RightRow.ReadFrom (path : FieldPath) (rows : List Record) (read : List RightRow) :
    Prop where
  rows : read.map RightRow.row = rows
  keys : ∀ r ∈ read, r.key = r.row.valueAt path
  numbered : RightRow.Numbered read

theorem zipIdx_zip_map {f : Record → Value} (rows : List Record) (start : Nat) :
    ((((rows.map f).zip rows).zipIdx start).map fun ((key, row), number) =>
      RightRow.mk number key row) =
      (rows.zipIdx start).map fun (row, number) => ⟨number, f row, row⟩ := by
  induction rows generalizing start with
  | nil => rfl
  | cons row rest ih =>
    simp only [List.map_cons, List.zip_cons_cons, List.zipIdx_cons, ih]

theorem RightRow.readFrom_zipIdx (path : FieldPath) (rows : List Record) :
    RightRow.ReadFrom path rows
      (rows.zipIdx.map fun (row, number) => ⟨number, row.valueAt path, row⟩) where
  rows := by
    rw [List.map_map]
    exact List.zipIdx_map_fst 0 rows
  keys := by
    intro r member
    obtain ⟨_, _, rfl⟩ := List.mem_map.mp member
    rfl
  numbered := by
    have increasing := @List.pairwise_lt_range' 0 rows.length 1 Nat.one_pos
    rw [← List.zipIdx_map_snd 0 rows, List.pairwise_map] at increasing
    exact List.pairwise_map.mpr increasing

/-- A joiner that has read its right rows for the terms of a join. It may have an index only for
the equalities. -/
structure Joiner.ReadFrom (terms : JoinTerms) (rows : List Record) (j : Joiner) : Prop where
  kind : j.kind = terms.kind
  aliasName : j.aliasName = terms.aliasName
  leftKey : j.leftKey = terms.keys.1
  operator : j.operator = terms.keys.2.1
  right : RightRow.ReadFrom terms.keys.2.2 rows j.rows
  index : j.index = none ∨ j.index = some (JoinIndex.ofRows j.rows) ∧ j.operator.isEquality = true

theorem JoinTerms.keys_isEquality (terms : JoinTerms) :
    terms.keys.2.1.isEquality = terms.operator.isEquality := by
  have exchanged : (converse terms.operator).isEquality = terms.operator.isEquality := by
    cases terms.operator <;> rfl
  unfold keys
  split
  · rfl
  · split
    · exact exchanged
    · rfl

/-- Reading the right side never fails, since a key that is missing is null. -/
theorem Joiner.ofRows_ok {terms : JoinTerms} {hashed : Bool}
    (allowed : hashed = true → terms.operator.isEquality = true) (rows : List Record) :
    ∃ j, Joiner.ofRows terms hashed rows = .ok j ∧ j.ReadFrom terms rows := by
  have read := RightRow.readFrom_zipIdx terms.keys.2.2 rows
  have keys : rows.mapM (fun r =>
      (r.lookupPath terms.keys.2.2 .lenient).mapError QueryError.ofValue) =
      .ok (rows.map fun r => r.valueAt terms.keys.2.2) :=
    mapM_ok fun r _ => by rw [r.lookupPath_lenient]; rfl
  rw [← zipIdx_zip_map (f := fun r => r.valueAt terms.keys.2.2)] at read
  simp only [ofRows, keys]
  refine ⟨_, rfl, rfl, rfl, rfl, rfl, read, ?_⟩
  cases hashed with
  | true => exact Or.inr ⟨rfl, terms.keys_isEquality.trans (allowed rfl)⟩
  | false => exact Or.inl rfl

end RecordQuery
