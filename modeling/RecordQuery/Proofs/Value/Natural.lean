import RecordQuery.Proofs.Text.Natural

namespace RecordQuery.Value

/-- Natural order on values by the folded forms of their bare texts. -/
def naturalOrderBy (fold : String → String) : Value → Value → Ordering
  | .null, .null => .eq
  | .null, _ => .lt
  | _, .null => .gt
  | a, b => Text.naturalOrderBy fold a.toText b.toText

theorem naturalOrder_eq : naturalOrder = naturalOrderBy Text.lower := by
  funext a b
  cases a <;> cases b <;> rfl

/-- Whether a value has a place of its own, behind that of null. -/
def present (v : Value) : Nat :=
  (!v.isNull).toNat

theorem naturalOrderBy_eq_compareLex (fold : String → String) :
    naturalOrderBy fold =
      compareLex (compareOn present) (fun a b => Text.naturalOrderBy fold a.toText b.toText) := by
  funext a b
  cases a with
  | null =>
    cases b with
    | null => exact (inferInstance : Std.ReflCmp (Text.naturalOrderBy fold)).compare_self.symm
    | _ => rfl
  | _ => cases b <;> rfl

instance (fold : String → String) : Std.TransCmp (naturalOrderBy fold) := by
  have texts : Std.TransCmp fun a b : Value => Text.naturalOrderBy fold a.toText b.toText :=
    { eq_swap := (inferInstance : Std.OrientedCmp (Text.naturalOrderBy fold)).eq_swap
      isLE_trans := (inferInstance : Std.TransCmp (Text.naturalOrderBy fold)).isLE_trans }
  rw [naturalOrderBy_eq_compareLex]
  infer_instance

/-- Natural order is a total preorder on texts and on values, with null in front, whatever the
folding of letters does. It does not tell apart just those texts whose folded forms are the same,
and it reads the runs of digits in them as numbers. -/
theorem naturalOrder_preorder (fold : String → String) :
    Std.TransCmp (Text.naturalOrderBy fold) ∧
      (∀ s t, Text.naturalOrderBy fold s t = .eq ↔ fold s = fold t) ∧
      (∀ s t digits others, Text.RunsMeet (fold s).toList (fold t).toList digits others →
        Decimal.valueOf digits < Decimal.valueOf others → Text.naturalOrderBy fold s t = .lt) ∧
      Std.TransCmp (naturalOrderBy fold) ∧
      (∀ v, naturalOrderBy fold .null v = if v.isNull then .eq else .lt) ∧
      Text.naturalOrder = Text.naturalOrderBy Text.lower ∧
      naturalOrder = naturalOrderBy Text.lower := by
  refine ⟨inferInstance, fun s t => Text.naturalOrderBy_eq_iff, ?_, inferInstance, ?_,
    Text.naturalOrder_eq, naturalOrder_eq⟩
  · intro s t digits others runs less
    exact runs.compareNatural less
  · intro v
    cases v <;> rfl

theorem naturalOrder_preorder_files :
    Text.RunsMeet (Text.lower "File2.TXT").toList (Text.lower "file010").toList ['2']
        ['0', '1', '0'] ∧
      Decimal.valueOf ['2'] < Decimal.valueOf ['0', '1', '0'] ∧
      Text.naturalOrderBy Text.lower "File2.TXT" "file010" = .lt := by
  have runs : Text.RunsMeet (Text.lower "File2.TXT").toList (Text.lower "file010").toList ['2']
      ['0', '1', '0'] := by
    refine ⟨"file".toList, ".txt".toList, [], by decide +kernel, by decide +kernel, rfl, rfl,
      ?_, ?_, nofun⟩
    · rintro c ⟨⟩
      rfl
    · rintro c ⟨⟩
      rfl
  exact ⟨runs, by decide, (naturalOrder_preorder Text.lower).2.2.1 _ _ _ _ runs (by decide)⟩

end RecordQuery.Value
