import Mathlib.Data.List.Nodup
import RecordQuery.Record

namespace RecordQuery.Record

/-- A new key goes to the end. -/
theorem insertField_absent {key : String} {fields : List (String × Value)}
    (absent : key ∉ fields.map Prod.fst) (v : Value) :
    insertField key v fields = fields ++ [(key, v)] := by
  induction fields with
  | nil => rfl
  | cons field rest ih =>
    obtain ⟨other, w⟩ := field
    have apart : other ≠ key := fun same => absent (same ▸ List.mem_cons_self ..)
    rw [insertField, if_neg apart, ih fun later => absent (List.mem_cons_of_mem _ later)]
    rfl

theorem keys_insert {r : Record} {key : String} (absent : key ∉ r.keys) (v : Value) :
    (r.insert key v).keys = r.keys ++ [key] := by
  unfold keys insert at *
  rw [insertField_absent absent, List.map_append]
  rfl

/-- The next one of several new keys goes to the end, and the others are still new. -/
theorem keys_insert_next {r : Record} {key : String} {later : List String}
    (apart : (r.keys ++ key :: later).Nodup) (v : Value) :
    ((r.insert key v).keys ++ later).Nodup ∧
      (r.insert key v).keys ++ later = r.keys ++ key :: later := by
  have absent : key ∉ r.keys := fun member =>
    (List.nodup_append.mp apart).2.2 key member key (List.mem_cons_self ..) rfl
  rw [keys_insert absent v, ← List.append_cons]
  exact ⟨apart, rfl⟩

theorem get?_insert_self (r : Record) (key : String) (v : Value) :
    (r.insert key v).get? key = some v := by
  obtain ⟨fields⟩ := r
  unfold insert get?
  induction fields with
  | nil => simp [insertField]
  | cons field rest ih =>
    obtain ⟨k, w⟩ := field
    rw [insertField]
    split
    · simp
    · rename_i other
      simp only [List.lookup_cons]
      rw [beq_false_of_ne (Ne.symm other)]
      exact ih

theorem get?_insert_other (r : Record) {key other : String} (apart : other ≠ key) (v : Value) :
    (r.insert key v).get? other = r.get? other := by
  obtain ⟨fields⟩ := r
  unfold insert get?
  induction fields with
  | nil => simp [insertField, List.lookup_cons, beq_false_of_ne apart]
  | cons field rest ih =>
    obtain ⟨k, w⟩ := field
    rw [insertField]
    split
    · rename_i same
      subst same
      simp [List.lookup_cons, beq_false_of_ne apart]
    · simp only [List.lookup_cons]
      split
      · rfl
      · exact ih

/-- The nulls of another record overwrite the fields of its keys, and no others. -/
theorem get?_merge_nullFilled (r other : Record) (key : String) :
    (r.merge other.nullFilled).get? key =
      if key ∈ other.keys then some .null else r.get? key := by
  obtain ⟨fields⟩ := other
  unfold merge nullFilled keys
  induction fields generalizing r with
  | nil => rfl
  | cons field rest ih =>
    rw [List.map_cons, List.foldl_cons, ih, List.map_cons]
    by_cases later : key ∈ rest.map Prod.fst
    · rw [if_pos later, if_pos (List.mem_cons_of_mem _ later)]
    · rw [if_neg later]
      by_cases same : key = field.1
      · rw [same, get?_insert_self, if_pos (List.mem_cons_self ..)]
      · have absent : key ∉ field.1 :: rest.map Prod.fst :=
          List.not_mem_cons_of_ne_of_not_mem same later
        rw [get?_insert_other _ same, if_neg absent]

section

variable {r s : Record} {key : String}

theorem get?_cons (field : String × Value) (rest : List (String × Value)) (key : String) :
    get? ⟨field :: rest⟩ key = if key = field.1 then some field.2 else get? ⟨rest⟩ key := by
  obtain ⟨k, v⟩ := field
  unfold get?
  rw [List.lookup_cons]
  by_cases same : key = k
  · rw [if_pos same, beq_iff_eq.mpr same]
  · rw [if_neg same, beq_false_of_ne same]

theorem nodup_keys_cons {field : String × Value} {rest : List (String × Value)}
    (apart : (keys ⟨field :: rest⟩).Nodup) : field.1 ∉ keys ⟨rest⟩ ∧ (keys ⟨rest⟩).Nodup :=
  List.nodup_cons.mp apart

theorem mem_keys_iff : key ∈ r.keys ↔ (r.get? key).isSome = true := by
  unfold keys get?
  rw [List.lookup_isSome_iff]
  simp

/-- Records with the same keys in the same order and the same values are the same. -/
theorem ext_get? (sameKeys : r.keys = s.keys) (apart : r.keys.Nodup)
    (values : ∀ key, r.get? key = s.get? key) : r = s := by
  obtain ⟨fields⟩ := r
  obtain ⟨others⟩ := s
  unfold keys at sameKeys apart
  unfold get? at values
  congr 1
  dsimp only at sameKeys apart values
  induction fields generalizing others with
  | nil => exact (List.map_eq_nil_iff.mp sameKeys.symm).symm
  | cons field rest ih =>
    obtain ⟨k, v⟩ := field
    cases others with
    | nil => cases sameKeys
    | cons other later =>
      obtain ⟨k', w⟩ := other
      obtain ⟨rfl, sameRest⟩ := List.cons.inj sameKeys
      obtain ⟨absent, apart⟩ := List.nodup_cons.mp apart
      obtain rfl : v = w := by simpa using values k
      rw [ih apart later sameRest fun key => ?_]
      by_cases same : key = k
      · subst same
        have missing {fields : List (String × Value)} (absent : key ∉ fields.map Prod.fst) :
            fields.lookup key = none := by
          rw [← Option.not_isSome_iff_eq_none, List.lookup_isSome_iff]
          simpa using absent
        rw [missing absent, missing (sameRest ▸ absent)]
      · simpa [List.lookup_cons, beq_false_of_ne same] using values key

/-- A key that is written again keeps its place. -/
theorem keys_insert_of_mem (member : key ∈ r.keys) (v : Value) :
    (r.insert key v).keys = r.keys := by
  obtain ⟨fields⟩ := r
  unfold keys insert at *
  dsimp only at *
  induction fields with
  | nil => cases member
  | cons field rest ih =>
    obtain ⟨k, w⟩ := field
    rw [insertField]
    split
    · rename_i same
      rw [List.map_cons, List.map_cons, same]
    · rename_i other
      rw [List.map_cons, List.map_cons, ih ((List.mem_cons.mp member).resolve_left (Ne.symm other))]

theorem keys_erase (r : Record) (key : String) : (r.erase key).keys = r.keys.erase key := by
  obtain ⟨fields⟩ := r
  unfold keys erase
  dsimp only
  induction fields with
  | nil => rfl
  | cons field rest ih =>
    obtain ⟨k, w⟩ := field
    rw [eraseField, List.map_cons, List.erase_cons]
    split
    · rename_i same
      rw [if_pos (beq_iff_eq.mpr same)]
    · rename_i other
      rw [if_neg (mt beq_iff_eq.mp other), List.map_cons, ih]

theorem get?_erase_self (apart : r.keys.Nodup) : (r.erase key).get? key = none := by
  rw [← Option.not_isSome_iff_eq_none, ← mem_keys_iff, keys_erase]
  exact apart.not_mem_erase

theorem get?_erase_other (r : Record) {key other : String} (apart : other ≠ key) :
    (r.erase key).get? other = r.get? other := by
  obtain ⟨fields⟩ := r
  unfold erase get?
  dsimp only
  induction fields with
  | nil => rfl
  | cons field rest ih =>
    obtain ⟨k, w⟩ := field
    rw [eraseField]
    split
    · rename_i same
      rw [same, List.lookup_cons, beq_false_of_ne apart]
    · rw [List.lookup_cons, List.lookup_cons, ih]

end

end RecordQuery.Record
