import RecordQuery.Query.Execution
import RecordQuery.Proofs.Join.Relation

namespace RecordQuery

namespace Joiner.ReadFrom

variable {terms : JoinTerms} {rows : List Record} {j : Joiner}

theorem probe_eq (reads : j.ReadFrom terms rows) (left : Record) :
    j.probe left = .ok (j.rows.filter fun r => terms.Matches left r.row) := by
  have tested : (j.rows.filter fun r => j.operator.apply (left.valueAt j.leftKey) r.key) =
      j.rows.filter fun r => terms.Matches left r.row := by
    refine List.filter_congr fun r member => ?_
    rw [reads.right.keys r member, reads.leftKey, reads.operator]
    rfl
  rw [probe, left.lookupPath_lenient, ← tested]
  refine congrArg Except.ok ?_
  rcases reads.index with scanned | ⟨indexed, equality⟩
  · rw [candidates, scanned]
  · exact filter_candidates equality indexed reads.right.numbered _

/-- The rows among the right ones that satisfy a condition, numbered or not. -/
theorem map_row_filter (reads : j.ReadFrom terms rows) (p : Record → Bool) :
    (j.rows.filter fun r => p r.row).map RightRow.row = rows.filter p := by
  rw [← reads.right.rows, List.filter_map]
  rfl

theorem attach_some (reads : j.ReadFrom terms rows) (left right : Record) :
    j.attach left (.ofRecord right) = terms.attach left (some right) := by
  unfold attach JoinTerms.attach
  rw [reads.aliasName]
  cases terms.aliasName <;> rfl

theorem attach_template (reads : j.ReadFrom terms rows) (left : Record) :
    j.attach left j.rightTemplate = terms.attach left (rows.head?.map Record.nullFilled) := by
  unfold attach rightTemplate JoinTerms.attach
  rw [reads.aliasName, ← reads.right.rows]
  cases terms.aliasName <;> cases j.rows <;> rfl

theorem map_attach (reads : j.ReadFrom terms rows) (left : Record) (p : Record → Bool) :
    (j.rows.filter fun r => p r.row).map (fun r => j.attach left (.ofRecord r.row)) =
      (rows.filter p).map fun right => terms.attach left (some right) := by
  rw [← reads.map_row_filter p, List.map_map]
  exact List.map_congr_left fun r _ => reads.attach_some left r.row

/-- The joined rows of a left row are what its item becomes in the relation. -/
theorem joined_eq (reads : j.ReadFrom terms rows) (left : Record) :
    (j.joined left (j.rows.filter fun r => terms.Matches left r.row)).map Except.ok =
      terms.leftItems rows (.ok left) := by
  have keeps : j.kind.keepsLeft = true ↔ terms.kind = .left ∨ terms.kind = .full := by
    rw [reads.kind]
    cases terms.kind <;> decide
  have found := reads.map_row_filter (terms.Matches left)
  have attached := reads.map_attach left (terms.Matches left)
  cases matched : rows.filter (terms.Matches left) with
  | nil =>
    rw [matched, List.map_eq_nil_iff] at found
    rw [joined, found, List.isEmpty_nil, if_pos rfl, reads.attach_template]
    simp only [keeps, JoinTerms.leftItems, matched]
    split <;> rfl
  | cons first rest =>
    have some_found : ¬ (j.rows.filter fun r => terms.Matches left r.row).isEmpty = true := by
      intro empty
      rw [List.isEmpty_iff.mp empty, matched] at found
      cases found
    rw [joined, if_neg some_found, attached, matched, List.map_map]
    simp only [JoinTerms.leftItems, matched]
    rfl

end Joiner.ReadFrom

namespace JoinStream

theorem drain_of_item {s next : JoinStream} {item : Item} (turned : s.turn = .item item next) :
    s.drain = item :: next.drain := by
  rw [drain]
  split <;> simp_all

theorem drain_of_more {s next : JoinStream} (turned : s.turn = .more next) :
    s.drain = next.drain := by
  rw [drain]
  split <;> simp_all

theorem drain_of_done {s : JoinStream} (turned : s.turn = .done) : s.drain = [] := by
  rw [drain]
  split <;> simp_all

/-- Pending rows come out before anything else is read. -/
theorem drain_pending (j : Joiner) (left : List Item) (matched : List Nat) (pending : List Record)
    (template : Option Record) (leftDone : Bool) :
    drain ⟨j, left, matched, pending, template, leftDone⟩ =
      pending.map .ok ++ drain ⟨j, left, matched, [], template, leftDone⟩ := by
  induction pending with
  | nil => rfl
  | cons row rest ih => rw [drain_of_item rfl, ih]; rfl

/-- The numbers of the right rows that some left row among the items matches. -/
def matchedBy (terms : JoinTerms) (j : Joiner) (left : List Item) : List Nat :=
  (Rows.rowsOf left).flatMap fun l =>
    (j.rows.filter fun r => terms.Matches l r.row).map RightRow.number

/-- A join under way gives what its left items become, and then the right rows matched neither
before nor by these. The template is that of the first left row that has been or will be read. -/
theorem drain_reading {terms : JoinTerms} {rows : List Record} {j : Joiner}
    (reads : j.ReadFrom terms rows) (left : List Item) (matched : List Nat)
    (template : Option Record) :
    drain ⟨j, left, matched, [], template, false⟩ =
      left.flatMap (terms.leftItems rows) ++
        (j.unmatched (matched ++ matchedBy terms j left)
          ((template.or ((Rows.rowsOf left).head?.map Record.nullFilled)).getD .empty)).map
            .ok := by
  induction left generalizing matched template with
  | nil =>
    rw [drain_of_more rfl, drain_pending, drain_of_done rfl]
    simp [matchedBy, Rows.rowsOf]
  | cons item rest ih =>
    cases item with
    | error e =>
      rw [drain_of_item rfl, ih]
      rfl
    | ok row =>
      have turned : turn ⟨j, .ok row :: rest, matched, [], template, false⟩ =
          .more ⟨j, rest, matched ++ (j.rows.filter fun r => terms.Matches row r.row).map
              RightRow.number,
            j.joined row (j.rows.filter fun r => terms.Matches row r.row),
            some (template.getD row.nullFilled), false⟩ := by
        simp only [turn, reads.probe_eq row]
      rw [drain_of_more turned, drain_pending, reads.joined_eq, ih, List.flatMap_cons,
        List.append_assoc, List.append_assoc]
      cases template <;> rfl

end JoinStream

namespace Joiner.ReadFrom

variable {terms : JoinTerms} {rows : List Record} {j : Joiner}

/-- A number stands for one right row, so the numbers matched by left items tell which right rows
they match. -/
theorem mem_matchedBy (reads : j.ReadFrom terms rows) {r : RightRow} (member : r ∈ j.rows)
    (left : List Item) :
    (JoinStream.matchedBy terms j left).contains r.number =
      (Rows.rowsOf left).any fun l => terms.Matches l r.row := by
  rw [Bool.eq_iff_iff]
  simp only [JoinStream.matchedBy, List.contains_iff_mem, List.mem_flatMap, List.mem_map,
    List.mem_filter, List.any_eq_true]
  constructor
  · rintro ⟨l, here, other, ⟨otherMember, holds⟩, same⟩
    have equal := RightRow.eq_of_number_eq reads.right.numbered otherMember member same
    exact ⟨l, here, equal ▸ holds⟩
  · rintro ⟨l, here, holds⟩
    exact ⟨l, here, r, ⟨member, holds⟩, rfl⟩

theorem unmatched_eq (reads : j.ReadFrom terms rows) (left : List Item) (template : Record) :
    j.unmatched (JoinStream.matchedBy terms j left) template =
      if terms.kind = .right ∨ terms.kind = .full then
        (rows.filter fun right => !(Rows.rowsOf left).any fun l => terms.Matches l right).map
          fun right => terms.attach template (some right)
      else [] := by
  have keeps : j.kind.keepsRight = true ↔ terms.kind = .right ∨ terms.kind = .full := by
    rw [reads.kind]
    cases terms.kind <;> decide
  have kept : (j.rows.filter fun r => !(JoinStream.matchedBy terms j left).contains r.number) =
      j.rows.filter fun r => !(Rows.rowsOf left).any fun l => terms.Matches l r.row :=
    List.filter_congr fun r member => by rw [reads.mem_matchedBy member left]
  unfold unmatched
  simp only [keeps, kept]
  rw [reads.map_attach template fun right =>
    !(Rows.rowsOf left).any fun l => terms.Matches l right]

/-- Whatever way the right rows are looked up, the stream gives the relation. -/
theorem drain_start (reads : j.ReadFrom terms rows) (left : List Item) :
    (JoinStream.start j left).drain = terms.relation rows left := by
  rw [JoinStream.start, JoinStream.drain_reading reads, List.nil_append, reads.unmatched_eq]
  unfold JoinTerms.relation JoinTerms.rightItems
  split
  · rw [List.map_map]
    rfl
  · rfl

end Joiner.ReadFrom

/-- The items of a join in a plan are those of the relation of its two sides. -/
theorem Plan.run_join {ambient : Ambient} {source : Source} {input right : Plan}
    {terms : JoinTerms} {left rightItems : List Item} {rows : List Record}
    (leftRun : input.run ambient source = .ok left)
    (rightRun : right.run ambient source = .ok rightItems)
    (collected : Rows.collect rightItems = .ok rows) :
    (Plan.join input right terms).run ambient source = .ok (terms.relation rows left) := by
  obtain ⟨j, read, reads⟩ := Joiner.ofRows_ok (id : terms.operator.isEquality = true → _) rows
  simp only [Plan.run, leftRun, rightRun]
  simp only [bind, Except.bind, collected, read, pure, Except.pure, reads.drain_start left]

namespace JoinStream

/-- A join computes the relation of its terms: in the order of the left side the right rows that
match each row, then what is left of the right side. An index is only made for the equalities. -/
theorem drain_eq_relation (terms : JoinTerms) (hashed : Bool)
    (allowed : hashed = true → terms.operator.isEquality = true) (rows : List Record)
    (left : List Item) :
    ∃ j, Joiner.ofRows terms hashed rows = .ok j ∧
      (start j left).drain = terms.relation rows left := by
  obtain ⟨j, read, reads⟩ := Joiner.ofRows_ok allowed rows
  exact ⟨j, read, reads.drain_start left⟩

theorem drain_eq_relation_of_less :
    let terms : JoinTerms := ⟨.full, none, ⟨"a", [.key "a"]⟩, .less, ⟨"b", [.key "b"]⟩⟩
    (false = true → terms.operator.isEquality = true) ∧
      ∃ j, Joiner.ofRows terms false [⟨[("b", .int 2)]⟩, ⟨[("b", .null)]⟩] = .ok j ∧
        (start j [.ok ⟨[("a", .int 1)]⟩, .ok ⟨[("a", .text "3")]⟩]).drain =
          terms.relation [⟨[("b", .int 2)]⟩, ⟨[("b", .null)]⟩]
            [.ok ⟨[("a", .int 1)]⟩, .ok ⟨[("a", .text "3")]⟩] :=
  ⟨fun absent => absurd absent Bool.false_ne_true,
    drain_eq_relation _ false (fun absent => absurd absent Bool.false_ne_true) _ _⟩

/-- Looking right rows up by their key changes nothing in what an equality joins. -/
theorem drain_hashed_eq_scanned (terms : JoinTerms) (equality : terms.operator.isEquality = true)
    (rows : List Record) (left : List Item) :
    ∃ hashed scanned, Joiner.ofRows terms true rows = .ok hashed ∧
      Joiner.ofRows terms false rows = .ok scanned ∧
      (start hashed left).drain = (start scanned left).drain := by
  have never : false = true → terms.operator.isEquality = true := fun _ => equality
  obtain ⟨hashed, readHashed, fromHashed⟩ := Joiner.ofRows_ok (fun _ => equality) rows
  obtain ⟨scanned, readScanned, fromScanned⟩ := Joiner.ofRows_ok never rows
  exact ⟨hashed, scanned, readHashed, readScanned,
    (fromHashed.drain_start left).trans (fromScanned.drain_start left).symm⟩

theorem drain_hashed_eq_scanned_of_zeros :
    let terms : JoinTerms := ⟨.right, some "r", ⟨"a", [.key "a"]⟩, .equal, ⟨"b", [.key "b"]⟩⟩
    terms.operator.isEquality = true ∧
      ∃ hashed scanned,
        Joiner.ofRows terms true [⟨[("b", .text "0")]⟩, ⟨[("b", .bool false)]⟩] = .ok hashed ∧
        Joiner.ofRows terms false [⟨[("b", .text "0")]⟩, ⟨[("b", .bool false)]⟩] = .ok scanned ∧
        (start hashed [.ok ⟨[("a", .float (-0.0))]⟩]).drain =
          (start scanned [.ok ⟨[("a", .float (-0.0))]⟩]).drain :=
  ⟨rfl, drain_hashed_eq_scanned _ rfl _ _⟩

end JoinStream

end RecordQuery
