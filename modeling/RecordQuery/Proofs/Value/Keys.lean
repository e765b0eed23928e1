import RecordQuery.Proofs.FieldPath.Lenient

namespace RecordQuery

theorem lookup_of_mem {fields : List (String × Value)} (apart : (fields.map Prod.fst).Nodup)
    {field : String × Value} (member : field ∈ fields) :
    fields.lookup field.1 = some field.2 := by
  induction fields with
  | nil => cases member
  | cons other rest ih =>
    rw [List.map_cons, List.nodup_cons] at apart
    rcases List.mem_cons.mp member with rfl | later
    · rw [List.lookup_cons, beq_self_eq_true]
    · have different : field.1 ≠ other.1 := fun same =>
        apart.1 (same ▸ List.mem_map_of_mem later)
      rw [List.lookup_cons, beq_false_of_ne different]
      exact ih apart.2 later

theorem mem_of_lookup {fields : List (String × Value)} {key : String} {v : Value}
    (found : fields.lookup key = some v) : (key, v) ∈ fields := by
  obtain ⟨before, behind, rfl, -⟩ := List.lookup_eq_some_iff.mp found
  exact List.mem_append_right _ (List.mem_cons_self ..)

/-- A value none of whose records has two fields of one key. -/
inductive Value.KeysApart : Value → Prop
  | null : KeysApart .null
  | bool (b : Bool) : KeysApart (.bool b)
  | int (n : Int64) : KeysApart (.int n)
  | float (x : Float) : KeysApart (.float x)
  | text (s : String) : KeysApart (.text s)
  | array {items : List Value} : (∀ v ∈ items, KeysApart v) → KeysApart (.array items)
  | record {fields : List (String × Value)} :
      (fields.map Prod.fst).Nodup → (∀ field ∈ fields, KeysApart field.2) →
      KeysApart (.record fields)

namespace Value.KeysApart

variable {v w : Value}

theorem child? {key : String} (apart : v.KeysApart) (found : FieldPath.child? key v = some w) :
    w.KeysApart := by
  cases apart with
  | record _ all => exact all _ (mem_of_lookup found)
  | array all =>
    obtain ⟨i, -, here⟩ := Option.bind_eq_some_iff.mp found
    exact all w (List.mem_of_getElem? here)
  | _ => cases found

/-- What a path leads to is a part of the value or an array of such parts. -/
theorem walk {path : FieldPath} {mode : Strictness} {segments : List Segment}
    (apart : v.KeysApart) (walked : path.walk mode segments v = .ok w) : w.KeysApart := by
  have missing {u : Value} (absent : path.missing mode = .ok u) : u.KeysApart := by
    cases mode <;> cases absent
    exact .null
  induction segments generalizing v w with
  | nil =>
    cases walked
    exact apart
  | cons segment rest ih =>
    cases segment with
    | key name =>
      rw [FieldPath.walk] at walked
      split at walked
      · rename_i found
        exact ih (apart.child? found) walked
      · exact missing walked
    | each =>
      cases apart with
      | @array items all =>
        rw [FieldPath.walk] at walked
        obtain ⟨found, each, rfl⟩ := exists_of_map_ok walked
        refine .array fun u member => ?_
        obtain ⟨item, among, led⟩ := exists_of_mapM_ok each u member
        exact ih (all item among) led
      | _ => exact missing walked

theorem valueAt {r : Record} (apart : (Value.ofRecord r).KeysApart) (path : FieldPath) :
    (r.valueAt path).KeysApart := by
  have found := r.lookupPath_lenient path
  unfold Record.lookupPath at found
  split at found
  · rename_i here
    have within : FieldPath.child? path.text (Value.ofRecord r) = some _ := here
    exact Except.ok.inj found ▸ apart.child? within
  · exact apart.walk found

end Value.KeysApart

end RecordQuery
