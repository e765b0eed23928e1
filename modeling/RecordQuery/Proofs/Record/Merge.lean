import RecordQuery.Proofs.Record.Keys
import RecordQuery.Rows.Join

namespace RecordQuery

namespace Record

/-- A record is merged field by field. -/
theorem merge_cons (r : Record) (field : String × Value) (rest : List (String × Value)) :
    r.merge ⟨field :: rest⟩ = (r.insert field.1 field.2).merge ⟨rest⟩ :=
  rfl

/-- The keys of a record that is merged into another one come behind those that are there, as far
as they are new. -/
theorem keys_merge (r : Record) {other : Record} (apart : other.keys.Nodup) :
    (r.merge other).keys = r.keys ++ other.keys.filter fun key => key ∉ r.keys := by
  obtain ⟨fields⟩ := other
  induction fields generalizing r with
  | nil => exact (List.append_nil _).symm
  | cons field rest ih =>
    obtain ⟨absent, apart⟩ := nodup_keys_cons apart
    have keys : keys ⟨field :: rest⟩ = field.1 :: Record.keys ⟨rest⟩ := rfl
    rw [merge_cons, ih (r.insert field.1 field.2) apart, keys, List.filter_cons]
    by_cases member : field.1 ∈ r.keys
    · rw [keys_insert_of_mem member, if_neg (by simp [member])]
    · rw [keys_insert member, if_pos (by simp [member]), List.append_assoc, List.singleton_append]
      congr 2
      refine List.filter_congr fun key inside => ?_
      have other : key ≠ field.1 := fun same => absent (same ▸ inside)
      simp [other]

/-- The fields of a record that is merged into another one overwrite those of the same keys. -/
theorem get?_merge (r : Record) {other : Record} (apart : other.keys.Nodup) (key : String) :
    (r.merge other).get? key = (other.get? key).or (r.get? key) := by
  obtain ⟨fields⟩ := other
  induction fields generalizing r with
  | nil => rfl
  | cons field rest ih =>
    obtain ⟨absent, apart⟩ := nodup_keys_cons apart
    rw [merge_cons, ih (r.insert field.1 field.2) apart, get?_cons]
    by_cases same : key = field.1
    · have missing : get? ⟨rest⟩ field.1 = none := by
        rwa [mem_keys_iff, Option.not_isSome_iff_eq_none] at absent
      rw [if_pos same, same, missing, get?_insert_self]
      rfl
    · rw [if_neg same, get?_insert_other r same]

theorem nodup_keys_merge {r other : Record} (apart : r.keys.Nodup) (otherApart : other.keys.Nodup) :
    (r.merge other).keys.Nodup := by
  rw [keys_merge r otherApart]
  refine List.nodup_append.mpr ⟨apart, otherApart.filter _, ?_⟩
  rintro a inside b later rfl
  simpa [inside] using (List.mem_filter.mp later).2

/-- Records may be merged in any grouping. -/
theorem merge_assoc {a b c : Record} (aApart : a.keys.Nodup) (bApart : b.keys.Nodup)
    (cApart : c.keys.Nodup) : (a.merge b).merge c = a.merge (b.merge c) := by
  have inner := nodup_keys_merge bApart cApart
  refine ext_get? ?_ (nodup_keys_merge (nodup_keys_merge aApart bApart) cApart) fun key => ?_
  · rw [keys_merge _ cApart, keys_merge a inner, keys_merge b cApart, keys_merge a bApart,
      List.filter_append, List.filter_filter, List.append_assoc]
    congr 2
    refine List.filter_congr fun key _ => ?_
    by_cases first : key ∈ a.keys <;> simp [first]
  · rw [get?_merge _ cApart, get?_merge a inner, get?_merge b cApart, get?_merge a bApart,
      Option.or_assoc]

theorem empty_merge {r : Record} (apart : r.keys.Nodup) : empty.merge r = r := by
  have kept : r.keys.filter (fun key => key ∉ empty.keys) = r.keys :=
    List.filter_eq_self.mpr fun key _ => by simp [empty, keys]
  have same : (empty.merge r).keys = r.keys := by
    rw [keys_merge empty apart, kept]
    rfl
  refine ext_get? same (same ▸ apart) fun key => ?_
  rw [get?_merge empty apart]
  exact Option.or_none

theorem merge_empty (r : Record) : r.merge empty = r :=
  rfl

end Record

/-- It does not matter whether joins without an alias are made one after the other or the last one
first. -/
theorem Joiner.attach_assoc {first second : Joiner} (unnamed : first.aliasName = none)
    (unnamed' : second.aliasName = none) {a b c : Record} (aApart : a.keys.Nodup)
    (bApart : b.keys.Nodup) (cApart : c.keys.Nodup) :
    second.attach (first.attach a (.ofRecord b)) (.ofRecord c) =
      first.attach a (.ofRecord (second.attach b (.ofRecord c))) := by
  simp only [attach, unnamed, unnamed', Value.ofRecord]
  exact Record.merge_assoc aApart bApart cApart

end RecordQuery
