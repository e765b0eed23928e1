import RecordQuery.Proofs.Draft.Changes

namespace RecordQuery

/-- The keys of the selected fields, in the order in which they are selected. -/
def Query.names (q : Query) : List String :=
  q.fields.map SelectedField.name

/-- A field that is added has a new key, and the last one is only renamed to a key that no other
field has. -/
theorem SelectionChange.nodup {Q : Call → Prop} {fields fields' : List SelectedField}
    (change : SelectionChange Q fields fields') (apart : (fields.map SelectedField.name).Nodup) :
    (fields'.map SelectedField.name).Nodup := by
  cases change with
  | keeps => exact apart
  | clears => exact .nil
  | adds e _ fresh =>
    rw [List.map_append, List.map_singleton]
    refine List.nodup_append.mpr ⟨apart, List.pairwise_singleton _ _, ?_⟩
    intro name earlier _ last same
    obtain ⟨g, member, rfl⟩ := List.mem_map.mp earlier
    exact fresh g member (same.trans (List.mem_singleton.mp last))
  | @renames front last name all free =>
    rw [all, List.map_append, List.map_singleton] at apart
    obtain ⟨before, -, precede⟩ := List.nodup_append.mp apart
    rw [List.map_append, List.map_singleton]
    refine List.nodup_append.mpr ⟨before, List.pairwise_singleton _ _, ?_⟩
    intro key earlier _ new same
    obtain ⟨g, member, rfl⟩ := List.mem_map.mp earlier
    have taken : g.name = name := same.trans (List.mem_singleton.mp new)
    rcases free with own | other
    · exact precede g.name earlier last.name (List.mem_singleton_self _) (taken.trans own.symm)
    · exact other g member taken

/-- The keys of the selected fields are apart in everything that is built. -/
theorem Draft.Reached.nodup_names {d : Draft} {q part : Query} (reached : d.Reached)
    (built : d.build = .ok q) (inside : part.PartOf q) : part.names.Nodup := by
  have calls : Call.IsKind fun _ => True := ⟨fun _ _ => trivial, fun _ => trivial⟩
  have all : q.FieldsAre fun fields => (fields.map SelectedField.name).Nodup :=
    reached.reachedWith.fieldsAre calls .nil (fun change => change.nodup) built
  exact all.part inside

end RecordQuery
