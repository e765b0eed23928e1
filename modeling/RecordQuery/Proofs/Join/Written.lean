import RecordQuery.Proofs.FieldPath.Dotted
import RecordQuery.Proofs.Join.Stream
import RecordQuery.Proofs.Value.Symmetry

namespace RecordQuery

/-- Whether there is an operator that says the same of exchanged operands. -/
def Operator.isReversible : Operator → Bool
  | .equal | .strictEqual | .notEqual | .notStrictEqual => true
  | .less | .lessOrEqual | .greater | .greaterOrEqual => true
  | _ => false

theorem JoinTerms.converse_apply {op : Operator} (reversible : op.isReversible = true)
    {v w : Value} (first : v.KeysApart) (second : w.KeysApart) :
    (converse op).apply w v = op.apply v w := by
  have loose := Value.looseEq_comm second first
  have strict := Value.strictEq_comm second first
  have order := Value.compare?_swap v w
  cases op with
  | equal | notEqual => simp only [converse, Operator.apply, loose]
  | strictEqual | notStrictEqual => simp only [converse, Operator.apply, strict]
  | less | lessOrEqual | greater | greaterOrEqual =>
    simp only [converse, Operator.apply, order]
    rcases v.compare? w with _ | _ | _ | _ <;> rfl
  | _ => exact absurd reversible Bool.false_ne_true

theorem Record.lookup_of_ofText? {text : String} {path : FieldPath}
    (read : FieldPath.ofText? text = some path) (r : Record) :
    r.lookup text .lenient = .ok (r.valueAt path) := by
  rw [r.lookup_eq_lookupPath read, r.lookupPath_lenient]

namespace JoinTerms

/-- The value that a path in the condition of a join stands for: behind the alias that of the right
row, and otherwise that of the left row. -/
def denoted (aliasName : String) (left right : Record) (key : FieldPath) :
    Except ValueError Value :=
  match key.behind? aliasName with
  | some rest => right.lookup rest .lenient
  | none => left.lookup key.text .lenient

/-- What the condition of a join says of two rows, with its operands in the order in which they are
written. -/
def holdsAsWritten (terms : JoinTerms) (aliasName : String) (left right : Record) :
    Except ValueError Bool := do
  let v ← denoted aliasName left right terms.leftKey
  let w ← denoted aliasName left right terms.rightKey
  pure (terms.operator.apply v w)

section

variable {aliasName rest : String} {left right : Record} {key other : FieldPath}

theorem denoted_of_behind (behind : key.behind? aliasName = some rest)
    (read : FieldPath.ofText? rest = some other) :
    denoted aliasName left right key = .ok (right.valueAt other) := by
  rw [denoted, behind]
  exact Record.lookup_of_ofText? read right

theorem denoted_of_apart (dotted : key.IsDotted) (apart : key.behind? aliasName = none) :
    denoted aliasName left right key = .ok (left.valueAt key) := by
  rw [denoted, apart]
  exact Record.lookup_of_ofText? dotted.read left

variable {terms : JoinTerms}

/-- With the alias on the right a join tests what is written. -/
theorem holdsAsWritten_of_right (named : terms.aliasName = some aliasName)
    (single : '.' ∉ aliasName.toList) (leftDotted : terms.leftKey.IsDotted)
    (rightDotted : terms.rightKey.IsDotted) (apart : terms.leftKey.behind? aliasName = none)
    (behind : terms.rightKey.behind? aliasName = some rest) :
    terms.holdsAsWritten aliasName left right = .ok (terms.Matches left right) := by
  obtain ⟨other, read, taken⟩ := withoutAlias?_of_behind rightDotted single behind
  have keys : terms.keys = (terms.leftKey, terms.operator, other) := by
    simp only [keys, named, taken]
  rw [holdsAsWritten, denoted_of_apart leftDotted apart, denoted_of_behind behind read, Matches,
    keys]
  rfl

/-- With the alias on the left a join tests the converse of the operator. -/
theorem exists_of_left (left right : Record) (named : terms.aliasName = some aliasName)
    (single : '.' ∉ aliasName.toList) (leftDotted : terms.leftKey.IsDotted)
    (rightDotted : terms.rightKey.IsDotted) (apart : terms.rightKey.behind? aliasName = none)
    (behind : terms.leftKey.behind? aliasName = some rest) :
    ∃ other, denoted aliasName left right terms.leftKey = .ok (right.valueAt other) ∧
      denoted aliasName left right terms.rightKey = .ok (left.valueAt terms.rightKey) ∧
      terms.Matches left right =
        (converse terms.operator).apply (left.valueAt terms.rightKey) (right.valueAt other) := by
  obtain ⟨other, read, taken⟩ := withoutAlias?_of_behind leftDotted single behind
  have absent := withoutAlias?_of_apart rightDotted apart
  have keys : terms.keys = (terms.rightKey, converse terms.operator, other) := by
    simp only [keys, named, absent, taken]
  refine ⟨other, denoted_of_behind behind read, denoted_of_apart rightDotted apart, ?_⟩
  rw [Matches, keys]

/-- That is what is written when the operator can be turned around. -/
theorem holdsAsWritten_of_left (named : terms.aliasName = some aliasName)
    (single : '.' ∉ aliasName.toList) (leftDotted : terms.leftKey.IsDotted)
    (rightDotted : terms.rightKey.IsDotted) (apart : terms.rightKey.behind? aliasName = none)
    (behind : terms.leftKey.behind? aliasName = some rest)
    (reversible : terms.operator.isReversible = true)
    (leftApart : (Value.ofRecord left).KeysApart) (rightApart : (Value.ofRecord right).KeysApart) :
    terms.holdsAsWritten aliasName left right = .ok (terms.Matches left right) := by
  obtain ⟨other, first, second, matched⟩ :=
    exists_of_left left right named single leftDotted rightDotted apart behind
  rw [holdsAsWritten, first, second, matched,
    converse_apply reversible (rightApart.valueAt other) (leftApart.valueAt terms.rightKey)]
  rfl

end

end JoinTerms

namespace Joiner

/-- The right rows that are found for a left row are those for which the condition holds as it is
written, looked up by their keys or compared one by one. One of the two paths has to begin with the
alias, and the left one may only when the operator can be turned around. -/
theorem probe_asWritten {terms : JoinTerms} {aliasName : String} {hashed : Bool}
    (named : terms.aliasName = some aliasName) (single : '.' ∉ aliasName.toList)
    (leftDotted : terms.leftKey.IsDotted) (rightDotted : terms.rightKey.IsDotted)
    (one : (terms.leftKey.behind? aliasName).isSome = !(terms.rightKey.behind? aliasName).isSome)
    (reversible : (terms.leftKey.behind? aliasName).isSome = true →
      terms.operator.isReversible = true)
    (allowed : hashed = true → terms.operator.isEquality = true)
    {rows : List Record} {left : Record}
    (apart : ∀ row ∈ left :: rows, (Value.ofRecord row).KeysApart) :
    ∃ j found holds, ofRows terms hashed rows = .ok j ∧ j.probe left = .ok found ∧
      (∀ right ∈ rows, terms.holdsAsWritten aliasName left right = .ok (holds right)) ∧
      found.map RightRow.row = rows.filter holds := by
  obtain ⟨j, read, reads⟩ := Joiner.ofRows_ok allowed rows
  refine ⟨j, _, terms.Matches left, read, reads.probe_eq left, fun right member => ?_,
    reads.map_row_filter (terms.Matches left)⟩
  cases onRight : terms.rightKey.behind? aliasName with
  | some rest =>
    rw [onRight] at one
    exact JoinTerms.holdsAsWritten_of_right named single leftDotted rightDotted
      (Option.isSome_eq_false_iff.mp one |> Option.isNone_iff_eq_none.mp) onRight
  | none =>
    rw [onRight] at one
    obtain ⟨rest, onLeft⟩ := Option.isSome_iff_exists.mp one
    exact JoinTerms.holdsAsWritten_of_left named single leftDotted rightDotted onRight onLeft
      (reversible one) (apart left (List.mem_cons_self ..))
      (apart right (List.mem_cons_of_mem _ member))

theorem probe_asWritten_greater :
    let terms : JoinTerms :=
      ⟨.inner, some "o", ⟨"o.n", [.key "o", .key "n"]⟩, .greater, ⟨"m", [.key "m"]⟩⟩
    let rows : List Record := [⟨[("n", .int 1)]⟩, ⟨[("n", .text "3")]⟩]
    let left : Record := ⟨[("m", .int 2)]⟩
    (terms.leftKey.IsDotted ∧ terms.rightKey.IsDotted ∧ '.' ∉ "o".toList) ∧
      ∃ j found holds, ofRows terms false rows = .ok j ∧ j.probe left = .ok found ∧
        (∀ right ∈ rows, terms.holdsAsWritten "o" left right = .ok (holds right)) ∧
        found.map RightRow.row = rows.filter holds := by
  intro terms rows left
  have leftDotted : terms.leftKey.IsDotted := ⟨by decide +kernel, by decide⟩
  have rightDotted : terms.rightKey.IsDotted := ⟨by decide +kernel, by decide⟩
  have apart : ∀ row ∈ left :: rows, (Value.ofRecord row).KeysApart := by
    simp only [left, rows, List.forall_mem_cons]
    exact ⟨.record (by decide) (List.forall_mem_singleton.mpr (.int 2)),
      .record (by decide) (List.forall_mem_singleton.mpr (.int 1)),
      .record (by decide) (List.forall_mem_singleton.mpr (.text "3")),
      List.forall_mem_nil _⟩
  exact ⟨⟨leftDotted, rightDotted, by decide⟩, probe_asWritten rfl (by decide) leftDotted
    rightDotted (by decide) (fun _ => rfl) (fun absent => absurd absent Bool.false_ne_true) apart⟩

/-- Where the alias stands on the left of a containment, that is tested the wrong way around. -/
theorem not_probe_asWritten :
    let terms : JoinTerms :=
      ⟨.inner, some "o", ⟨"o.name", [.key "o", .key "name"]⟩, .contains, ⟨"tag", [.key "tag"]⟩⟩
    let left : Record := ⟨[("tag", .text "b")]⟩
    let right : Record := ⟨[("name", .text "abc")]⟩
    (terms.leftKey.IsDotted ∧ terms.rightKey.IsDotted) ∧
      ¬ ∃ j found holds, ofRows terms false [right] = .ok j ∧ j.probe left = .ok found ∧
        terms.holdsAsWritten "o" left right = .ok (holds right) ∧
        found.map RightRow.row = [right].filter holds := by
  intro terms left right
  refine ⟨⟨⟨by decide +kernel, by decide⟩, ⟨by decide +kernel, by decide⟩⟩, ?_⟩
  rintro ⟨j, found, holds, read, probed, written, same⟩
  obtain ⟨_, reading, reads⟩ :=
    @ofRows_ok terms false (fun absent => absurd absent Bool.false_ne_true) [right]
  cases read.symm.trans reading
  cases probed.symm.trans (reads.probe_eq left)
  have denied : terms.Matches left right = false := by decide +kernel
  have stated : terms.holdsAsWritten "o" left right = .ok true := by decide +kernel
  have kept : holds right = true := (Except.ok.inj (stated.symm.trans written)).symm
  rw [reads.map_row_filter, List.filter_singleton, List.filter_singleton, denied, kept] at same
  cases same

end Joiner

end RecordQuery
