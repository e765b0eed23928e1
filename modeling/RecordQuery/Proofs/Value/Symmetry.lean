import Mathlib.Data.List.Perm.Subperm
import RecordQuery.Proofs.Value.Keys
import RecordQuery.Proofs.Value.SortOrder

namespace RecordQuery

namespace Value

/-- Whether a relation holds of every field and of one with its key among others. -/
def FieldsMatch (holds : Value → Value → Bool) (fields others : List (String × Value)) : Prop :=
  ∀ field ∈ fields, ∃ w, others.lookup field.1 = some w ∧ holds field.2 w = true

/-- Among as many fields no key is left over. -/
theorem FieldsMatch.exchange {holds : Value → Value → Bool} {fields others : List (String × Value)}
    (matched : FieldsMatch holds fields others) (apart : (fields.map Prod.fst).Nodup)
    (othersApart : (others.map Prod.fst).Nodup) (lengths : fields.length = others.length)
    (symmetric : ∀ field ∈ fields, ∀ other ∈ others,
      holds field.2 other.2 = holds other.2 field.2) : FieldsMatch holds others fields := by
  have inside : fields.map Prod.fst ⊆ others.map Prod.fst := by
    intro key member
    obtain ⟨field, here, rfl⟩ := List.mem_map.mp member
    obtain ⟨w, found, -⟩ := matched field here
    exact List.mem_map.mpr ⟨(field.1, w), mem_of_lookup found, rfl⟩
  have same : (fields.map Prod.fst).Perm (others.map Prod.fst) :=
    (List.subperm_of_subset apart inside).perm_of_length_le (by simp [lengths])
  intro other member
  obtain ⟨field, here, key⟩ := List.mem_map.mp (same.mem_iff.mpr (List.mem_map_of_mem member))
  obtain ⟨w, found, kept⟩ := matched field here
  obtain rfl : other.2 = w := by
    rw [key, lookup_of_mem othersApart member] at found
    exact Option.some.inj found
  refine ⟨field.2, ?_, ?_⟩
  · rw [← key]
    exact lookup_of_mem apart here
  · rw [← symmetric field here other member]
    exact kept

theorem looseEqFields_iff {fields others : List (String × Value)} :
    looseEqFields fields others = true ↔ FieldsMatch looseEq fields others := by
  induction fields with
  | nil => exact ⟨fun _ => nofun, fun _ => rfl⟩
  | cons field rest ih =>
    rw [looseEqFields, Bool.and_eq_true, ih]
    refine Iff.trans (and_congr ?_ Iff.rfl) List.forall_mem_cons.symm
    cases others.lookup field.1 <;> simp

theorem strictEqFields_iff {fields others : List (String × Value)} :
    strictEqFields fields others = true ↔ FieldsMatch strictEq fields others := by
  induction fields with
  | nil => exact ⟨fun _ => nofun, fun _ => rfl⟩
  | cons field rest ih =>
    rw [strictEqFields, Bool.and_eq_true, ih]
    refine Iff.trans (and_congr ?_ Iff.rfl) List.forall_mem_cons.symm
    cases others.lookup field.1 <;> simp

theorem scalarEq_comm (a b : Value) : a.scalarEq b = b.scalarEq a := by
  have numbers (x y : Number) : (x.compare? y == some .eq) = (y.compare? x == some .eq) := by
    rw [Number.compare?_swap x y]
    rcases x.compare? y with _ | _ | _ | _ <;> rfl
  have texts (s t : String) : (s == t) = (t == s) := BEq.comm
  unfold scalarEq
  cases a.number? <;> cases b.number?
  case some.some x y => exact numbers x y
  all_goals
    cases a <;> cases b <;> first | rfl | exact texts _ _

/-- Records match in either order when the relation of their values is symmetric. -/
theorem fieldsMatch_comm {holds : Value → Value → Bool} {fields others : List (String × Value)}
    (apart : (fields.map Prod.fst).Nodup) (othersApart : (others.map Prod.fst).Nodup)
    (symmetric : ∀ field ∈ fields, ∀ other ∈ others,
      holds field.2 other.2 = holds other.2 field.2) :
    (fields.length = others.length ∧ FieldsMatch holds fields others) ↔
      (others.length = fields.length ∧ FieldsMatch holds others fields) := by
  constructor
  · rintro ⟨lengths, matched⟩
    exact ⟨lengths.symm, matched.exchange apart othersApart lengths symmetric⟩
  · rintro ⟨lengths, matched⟩
    exact ⟨lengths.symm, matched.exchange othersApart apart lengths
      fun other here field member => (symmetric field member other here).symm⟩

theorem looseEqItems_comm {items others : List Value}
    (symmetric : ∀ v ∈ items, ∀ w ∈ others, v.looseEq w = w.looseEq v) :
    looseEqItems items others = looseEqItems others items := by
  induction items generalizing others with
  | nil => cases others <;> rfl
  | cons v rest ih =>
    cases others with
    | nil => rfl
    | cons w others =>
      obtain ⟨first, later⟩ := List.forall_mem_cons.mp symmetric
      rw [looseEqItems, looseEqItems, first w (List.mem_cons_self ..),
        ih fun u member x among => later u member x (List.mem_cons_of_mem _ among)]

theorem strictEqItems_comm {items others : List Value}
    (symmetric : ∀ v ∈ items, ∀ w ∈ others, v.strictEq w = w.strictEq v) :
    strictEqItems items others = strictEqItems others items := by
  induction items generalizing others with
  | nil => cases others <;> rfl
  | cons v rest ih =>
    cases others with
    | nil => rfl
    | cons w others =>
      obtain ⟨first, later⟩ := List.forall_mem_cons.mp symmetric
      rw [strictEqItems, strictEqItems, first w (List.mem_cons_self ..),
        ih fun u member x among => later u member x (List.mem_cons_of_mem _ among)]

/-- Loose equality does not depend on the order of the two values. -/
theorem looseEq_comm {a b : Value} (first : a.KeysApart) (second : b.KeysApart) :
    a.looseEq b = b.looseEq a := by
  induction first generalizing b with
  | array _ ih =>
    cases second with
    | array all =>
      simp only [looseEq]
      exact looseEqItems_comm fun v member w among => ih v member (all w among)
    | _ => simp [looseEq, scalarEq_comm]
  | record apart _ ih =>
    cases second with
    | record othersApart all =>
      have both := fieldsMatch_comm apart othersApart
        fun field member other among => ih field member (all other among)
      rw [Bool.eq_iff_iff]
      simpa only [looseEq, Bool.and_eq_true, beq_iff_eq, looseEqFields_iff] using both
    | _ => simp [looseEq, scalarEq_comm]
  | bool x => cases b <;> first | rfl | exact BEq.comm
  | null => cases b <;> rfl
  | _ => cases b <;> simp [looseEq, scalarEq_comm]

/-- Strict equality does not depend on the order of the two values. -/
theorem strictEq_comm {a b : Value} (first : a.KeysApart) (second : b.KeysApart) :
    a.strictEq b = b.strictEq a := by
  induction first generalizing b with
  | array _ ih =>
    cases second with
    | array all =>
      simp only [strictEq]
      exact strictEqItems_comm fun v member w among => ih v member (all w among)
    | _ => rfl
  | record apart _ ih =>
    cases second with
    | record othersApart all =>
      have both := fieldsMatch_comm apart othersApart
        fun field member other among => ih field member (all other among)
      rw [Bool.eq_iff_iff]
      simpa only [strictEq, Bool.and_eq_true, beq_iff_eq, strictEqFields_iff] using both
    | _ => rfl
  | float x =>
    cases b with
    | float y =>
      rw [Bool.eq_iff_iff]
      simp only [strictEq, Double.beq_iff_compare?]
      rw [Double.compare?_swap x y]
      rcases Double.compare? x y with _ | _ | _ | _ <;> decide
    | _ => rfl
  | _ => cases b <;> first | rfl | exact BEq.comm

end Value

end RecordQuery
