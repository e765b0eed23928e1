import RecordQuery.Proofs.Join.Stream
import RecordQuery.Proofs.Json.Injective
import RecordQuery.Proofs.Record.Keys

namespace RecordQuery

namespace JoinTerms

variable {terms : JoinTerms} {rows : List Record} {l : Record}

/-- The keys that a left row without a match is given: the alias, or without one the keys of the
first right row. -/
def filledKeys (terms : JoinTerms) (rows : List Record) : List String :=
  match terms.aliasName with
  | some aliasName => [aliasName]
  | none => (rows.head?.map Record.keys).getD []

/-- What stands under these keys: nulls, which under the alias are those of a whole row if there is
one. -/
def filler (terms : JoinTerms) (rows : List Record) : Value :=
  match terms.aliasName, rows.head? with
  | some _, some first => .ofRecord first.nullFilled
  | _, _ => .null

/-- A left row without a match keeps what does not stand under these keys. -/
theorem get?_attach_nullFilled (terms : JoinTerms) (rows : List Record) (l : Record)
    (key : String) :
    (terms.attach l (rows.head?.map Record.nullFilled)).get? key =
      if key ∈ terms.filledKeys rows then some (terms.filler rows) else l.get? key := by
  have inserted (name : String) (v : Value) :
      (l.insert name v).get? key = if key ∈ [name] then some v else l.get? key := by
    by_cases same : key = name
    · rw [same, l.get?_insert_self, if_pos (List.mem_singleton_self name)]
    · rw [l.get?_insert_other same, if_neg (List.not_mem_cons_of_ne_of_not_mem same List.not_mem_nil)]
  unfold attach filledKeys filler
  cases terms.aliasName with
  | some aliasName => cases rows.head? <;> exact inserted aliasName _
  | none =>
    cases rows.head? with
    | some first => exact l.get?_merge_nullFilled first key
    | none => rfl

/-- A left row that no right row matches has one row of an outer join. -/
theorem leftItems_unmatched (keeps : terms.kind = .left ∨ terms.kind = .full)
    (unmatched : ∀ r ∈ rows, terms.Matches l r = false) :
    terms.leftItems rows (.ok l) = [.ok (terms.attach l (rows.head?.map Record.nullFilled))] := by
  have nothing : rows.filter (terms.Matches l) = [] :=
    List.filter_eq_nil_iff.mpr fun r member => by rw [unmatched r member]; exact Bool.false_ne_true
  simp only [leftItems, nothing, if_pos keeps]

end JoinTerms

namespace JoinStream

/-- An outer join gives one row for a left row that no right row matches, in its place among the
others. Only the alias, or without one what is called like a field of the first right row, is
overwritten in it. -/
theorem drain_keeps_left (terms : JoinTerms) (keeps : terms.kind = .left ∨ terms.kind = .full)
    (hashed : Bool) (allowed : hashed = true → terms.operator.isEquality = true)
    (rows : List Record) (before after : List Item) (l : Record)
    (unmatched : ∀ r ∈ rows, terms.Matches l r = false) :
    ∃ j out, Joiner.ofRows terms hashed rows = .ok j ∧
      (start j (before ++ .ok l :: after)).drain =
        before.flatMap (terms.leftItems rows) ++ .ok out ::
          (after.flatMap (terms.leftItems rows) ++
            terms.rightItems rows (before ++ .ok l :: after)) ∧
      ∀ key, out.get? key =
        if key ∈ terms.filledKeys rows then some (terms.filler rows) else l.get? key := by
  obtain ⟨j, read, reads⟩ := Joiner.ofRows_ok allowed rows
  refine ⟨j, _, read, ?_, terms.get?_attach_nullFilled rows l⟩
  rw [reads.drain_start, JoinTerms.relation, List.flatMap_append, List.flatMap_cons,
    JoinTerms.leftItems_unmatched keeps unmatched, List.append_assoc, List.append_assoc]
  rfl

/-- A full join under an alias, with another left row behind the one that is kept. -/
theorem drain_keeps_left_of_aliased :
    let terms : JoinTerms := ⟨.full, some "o", ⟨"id", [.key "id"]⟩, .equal, ⟨"id", [.key "id"]⟩⟩
    let rows : List Record := [⟨[("id", .int 1)]⟩, ⟨[("id", .text "3"), ("name", .null)]⟩]
    let l : Record := ⟨[("id", .int 2), ("name", .text "b")]⟩
    ((terms.kind = .left ∨ terms.kind = .full) ∧
      (true = true → terms.operator.isEquality = true) ∧
      ∀ r ∈ rows, terms.Matches l r = false) ∧
    ∃ j out, Joiner.ofRows terms true rows = .ok j ∧
      (start j ([] ++ .ok l :: [.ok ⟨[("id", .int 1)]⟩])).drain =
        [].flatMap (terms.leftItems rows) ++ .ok out ::
          ([.ok ⟨[("id", .int 1)]⟩].flatMap (terms.leftItems rows) ++
            terms.rightItems rows ([] ++ .ok l :: [.ok ⟨[("id", .int 1)]⟩])) ∧
      ∀ key, out.get? key =
        if key ∈ terms.filledKeys rows then some (terms.filler rows) else l.get? key :=
  ⟨⟨.inr rfl, fun _ => rfl, by decide +kernel⟩,
    drain_keeps_left _ (.inr rfl) true (fun _ => rfl) _ [] _ _ (by decide +kernel)⟩

/-- An outer join without an alias overwrites the key that both sides have. -/
theorem not_drain_keeps_left :
    let terms : JoinTerms := ⟨.left, none, ⟨"id", [.key "id"]⟩, .equal, ⟨"id", [.key "id"]⟩⟩
    let rows : List Record := [⟨[("id", .int 1), ("total", .int 50)]⟩]
    let l : Record := ⟨[("id", .int 2), ("name", .text "b")]⟩
    let out : Record := ⟨[("id", .null), ("name", .text "b"), ("total", .null)]⟩
    (∀ r ∈ rows, terms.Matches l r = false) ∧
      (∃ j, Joiner.ofRows terms true rows = .ok j ∧ (start j [.ok l]).drain = [.ok out]) ∧
      out.get? "id" ≠ l.get? "id" := by
  intro terms rows l out
  have equality : terms.operator.isEquality = true := rfl
  have unmatched : ∀ r ∈ rows, terms.Matches l r = false := by decide
  obtain ⟨j, read, reads⟩ := Joiner.ofRows_ok (fun _ => equality) rows
  refine ⟨unmatched, ⟨j, read, ?_⟩, by decide⟩
  rw [reads.drain_start, JoinTerms.relation, List.flatMap_cons,
    JoinTerms.leftItems_unmatched (.inl rfl) unmatched]
  rfl

end JoinStream

end RecordQuery
