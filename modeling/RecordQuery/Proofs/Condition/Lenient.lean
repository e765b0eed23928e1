import RecordQuery.Proofs.Condition.Meaning
import RecordQuery.Proofs.FieldPath.Lenient

namespace RecordQuery

/-- Whether an evaluation fails because the field of one of the predicates is not there. -/
def MissesOneOf (tests : List Predicate) (e : QueryError) : Prop :=
  ∃ p ∈ tests, e = .ofValue (.missingField p.field.text)

theorem MissesOneOf.mono {tests others : List Predicate} {e : QueryError}
    (misses : MissesOneOf tests e) (sub : tests ⊆ others) : MissesOneOf others e := by
  obtain ⟨p, member, same⟩ := misses
  exact ⟨p, sub member, same⟩

theorem Predicate.evaluate_relaxes (p : Predicate) (r : Record) :
    Relaxes (MissesOneOf [p]) (p.evaluate r .strict) (p.evaluate r .lenient) := by
  have looked := r.lookupPath_relaxes p.field
  have lenient := r.lookupPath_lenient p.field
  rw [evaluate, evaluate, lenient]
  cases strict : r.lookupPath p.field .strict with
  | ok v =>
    have same := looked.kept v strict
    rw [lenient] at same
    rw [Except.ok.inj same]
    exact .ok _
  | error e =>
    exact .error ⟨p, List.mem_cons_self .., by rw [looked.caused e strict]⟩ _

namespace Condition

theorem evaluateAll_cons (r : Record) (mode : Strictness) (before : Option Bool)
    (connective : Connective) (c : Condition) (rest : List (Connective × Condition)) :
    evaluateAll r mode before ((connective, c) :: rest) =
      c.evaluate r mode >>= fun b => evaluateAll r mode (some (connective.fold before b)) rest := by
  rw [evaluateAll]
  cases c.evaluate r mode <;> rfl

mutual

theorem evaluate_relaxes (r : Record) (c : Condition) :
    Relaxes (MissesOneOf c.tests) (c.evaluate r .strict) (c.evaluate r .lenient) := by
  cases c with
  | test p => exact p.evaluate_relaxes r
  | group children => exact (evaluateAll_relaxes r none children).map fun truth => truth.getD true

theorem evaluateAll_relaxes (r : Record) (before : Option Bool)
    (children : List (Connective × Condition)) :
    Relaxes (MissesOneOf (testsOf children)) (evaluateAll r .strict before children)
      (evaluateAll r .lenient before children) := by
  match children with
  | [] => exact .ok before
  | (connective, c) :: rest =>
    rw [evaluateAll_cons, evaluateAll_cons]
    refine .bind ((evaluate_relaxes r c).mono fun e misses => misses.mono ?_) fun b =>
      (evaluateAll_relaxes r _ rest).mono fun e misses => misses.mono ?_
    · exact List.subset_append_left _ _
    · exact List.subset_append_right _ _

end

end Condition

/-- Lenient evaluation goes on where strict evaluation stops, and agrees with it elsewhere: in
following a parsed path from a record, in looking it or its text up there, and in evaluating any
tree of conditions. Strict evaluation stops for want of a field only. -/
theorem Record.lenient_extends {text : String} {path : FieldPath}
    (parsed : FieldPath.ofText? text = some path) (r : Record) (tree : ConditionTree) :
    Relaxes (· = .missingField text) (path.resolve r .strict) (path.resolve r .lenient) ∧
      Relaxes (· = .missingField text) (r.lookupPath path .strict)
        (r.lookupPath path .lenient) ∧
      Relaxes (· = .missingField text) (r.lookup text .strict) (r.lookup text .lenient) ∧
      Relaxes (MissesOneOf (Condition.testsOf tree.children)) (tree.evaluate r .strict)
        (tree.evaluate r .lenient) := by
  have resolved := path.resolve_relaxes r
  have looked := r.lookupPath_relaxes path
  rw [FieldPath.text_of_ofText? parsed] at resolved looked
  refine ⟨resolved, looked, ?_, Condition.evaluate_relaxes r (.group tree.children)⟩
  rwa [r.lookup_eq_lookupPath parsed, r.lookup_eq_lookupPath parsed]

/-- One of two items lacks the field that the path asks all of them for. -/
theorem Record.lenient_extends_sparse :
    let path : FieldPath := ⟨"items[].price", [.key "items", .each, .key "price"]⟩
    let r : Record := ⟨[("items", .array [.record [("price", .int 1)], .record []])]⟩
    let tree : ConditionTree := ⟨[(.and, .test ⟨path, .contains, .int 1⟩)]⟩
    FieldPath.ofText? "items[].price" = some path ∧
      path.resolve r .strict = .error (.missingField "items[].price") ∧
      path.resolve r .lenient = .ok (.array [.int 1, .null]) ∧
      Relaxes (· = .missingField "items[].price") (r.lookup "items[].price" .strict)
        (r.lookup "items[].price" .lenient) ∧
      Relaxes (MissesOneOf [⟨path, .contains, .int 1⟩]) (tree.evaluate r .strict)
        (tree.evaluate r .lenient) := by
  intro path r tree
  have parsed : FieldPath.ofText? "items[].price" = some path := by decide +kernel
  obtain ⟨-, -, looked, evaluated⟩ := lenient_extends parsed r tree
  exact ⟨parsed, rfl, rfl, looked, evaluated⟩

end RecordQuery
