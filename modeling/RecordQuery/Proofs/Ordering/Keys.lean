import RecordQuery.Proofs.FieldPath.Lenient
import RecordQuery.Proofs.Ordering.Stable

namespace RecordQuery

/-- The comparison that a direction goes by, turned round for descending order. Shuffled values are
not compared. -/
def Direction.comparison? : Direction → Option (Value → Value → Ordering)
  | .asc => some Value.sortOrder
  | .desc => some Value.sortOrder
  | .natural => some Value.naturalOrder
  | .shuffle => none

namespace OrderKey

/-- Whether the values of a key can be put in line, in all of the rows. -/
def Compares (key : OrderKey) (rows : List Record) : Prop :=
  ∃ comparison, key.direction.comparison? = some comparison ∧
    IsPreorderOn comparison (rows.map fun r => r.valueAt key.field)

/-- Whether a key puts a row in front of another one: its value is the smaller one of the two or, in
descending order, the greater one. -/
def Before (key : OrderKey) (a b : Record) : Prop :=
  match key.direction with
  | .asc => (a.valueAt key.field).sortOrder (b.valueAt key.field) = .lt
  | .desc => (a.valueAt key.field).sortOrder (b.valueAt key.field) = .gt
  | .natural => (a.valueAt key.field).naturalOrder (b.valueAt key.field) = .lt
  | .shuffle => False

/-- Whether a key does not tell two rows apart. -/
def ties (key : OrderKey) (a b : Record) : Bool :=
  match key.direction.comparison? with
  | some comparison => comparison (a.valueAt key.field) (b.valueAt key.field) == .eq
  | none => true

/-- The order of two rows by a key. -/
def order (key : OrderKey) (a b : Record) : Ordering :=
  key.direction.order (a.valueAt key.field) (b.valueAt key.field)

theorem order_lt_iff (key : OrderKey) (a b : Record) : key.order a b = .lt ↔ key.Before a b := by
  obtain ⟨field, direction⟩ := key
  cases direction with
  | desc =>
    have turned := Value.sortOrder_swap (a.valueAt field) (b.valueAt field)
    simp only [order, Direction.order, Before, turned, Ordering.swap_eq_lt]
  | _ => simp [order, Direction.order, Before]

theorem order_eq_iff (key : OrderKey) (a b : Record) : key.order a b = .eq ↔ key.ties a b := by
  obtain ⟨field, direction⟩ := key
  cases direction with
  | desc =>
    have turned := Value.sortOrder_swap (a.valueAt field) (b.valueAt field)
    simp [order, Direction.order, ties, Direction.comparison?, turned]
  | _ => simp [order, Direction.order, ties, Direction.comparison?]

/-- A key puts rows in line if its values are in line. Turning the line round changes nothing in
that. -/
theorem Compares.isPreorderOn {key : OrderKey} {rows : List Record} (compares : key.Compares rows) :
    IsPreorderOn key.order rows := by
  obtain ⟨comparison, found, preorder⟩ := compares
  obtain ⟨field, direction⟩ := key
  cases direction with
  | asc => cases found; exact preorder.comap
  | desc => cases found; exact preorder.comap.flip
  | natural => cases found; exact preorder.comap
  | shuffle => cases found

theorem Compares.ne_shuffle {key : OrderKey} {rows : List Record} (compares : key.Compares rows) :
    key.direction ≠ .shuffle := by
  obtain ⟨comparison, found, -⟩ := compares
  intro shuffled
  rw [shuffled] at found
  cases found

end OrderKey

namespace Rows

/-- Whether two rows stand as the keys say: the first key that tells them apart puts the one in
front of the other. -/
def InOrder : List OrderKey → Record → Record → Prop
  | [], _, _ => True
  | key :: keys, a, b => key.Before a b ∨ key.ties a b ∧ InOrder keys a b

/-- Whether no key tells two rows apart. -/
def tied (keys : List OrderKey) (a b : Record) : Bool :=
  keys.all fun key => key.ties a b

/-- The order of two rows by several keys. -/
def orderOf : List OrderKey → Record → Record → Ordering
  | [], _, _ => .eq
  | key :: keys, a, b => (key.order a b).then (orderOf keys a b)

theorem keysOrder_values (keys : List OrderKey) (a b : Record) :
    keysOrder keys (keys.map fun key => a.valueAt key.field)
      (keys.map fun key => b.valueAt key.field) = orderOf keys a b := by
  induction keys with
  | nil => rfl
  | cons key keys ih =>
    rw [List.map_cons, List.map_cons, keysOrder, ih, orderOf, OrderKey.order]
    cases key.direction.order (a.valueAt key.field) (b.valueAt key.field) <;> rfl

theorem isPreorderOn_orderOf {keys : List OrderKey} {rows : List Record}
    (compares : ∀ key ∈ keys, key.Compares rows) : IsPreorderOn (orderOf keys) rows := by
  induction keys with
  | nil => exact ⟨fun _ _ _ _ => rfl, fun _ _ _ _ _ _ _ _ => nofun⟩
  | cons key keys ih =>
    have first := (compares key (List.mem_cons_self ..)).isPreorderOn
    exact first.thenBy (ih fun other member => compares other (List.mem_cons_of_mem _ member))

theorem inOrder_of_orderOf {keys : List OrderKey} {a b : Record} (le : orderOf keys a b ≠ .gt) :
    InOrder keys a b := by
  induction keys with
  | nil => trivial
  | cons key keys ih =>
    rw [orderOf] at le
    cases first : key.order a b with
    | lt => exact Or.inl ((key.order_lt_iff a b).mp first)
    | eq =>
      rw [first] at le
      exact Or.inr ⟨(key.order_eq_iff a b).mp first, ih le⟩
    | gt =>
      rw [first] at le
      exact absurd rfl le

theorem orderOf_eq_iff (keys : List OrderKey) (a b : Record) :
    orderOf keys a b = .eq ↔ tied keys a b := by
  induction keys with
  | nil => exact iff_of_true rfl rfl
  | cons key keys ih =>
    simp only [tied, List.all_cons, Bool.and_eq_true] at ih ⊢
    rw [orderOf, Ordering.then_eq_eq, key.order_eq_iff, ih]

theorem keyedAll_rows (keys : List OrderKey) (rows : List Record) :
    keyedAll keys (rows.map .ok) =
      .ok (rows.map fun r => (keys.map fun key => r.valueAt key.field, r)) := by
  induction rows with
  | nil => rfl
  | cons r rest ih =>
    have values : keys.mapM (fun key =>
        (r.lookupPath key.field .lenient).mapError QueryError.ofValue) =
        .ok (keys.map fun key => r.valueAt key.field) :=
      mapM_ok fun key _ => by rw [r.lookupPath_lenient]; rfl
    simp only [List.map_cons, keyedAll, keyed, values, ih]
    rfl

theorem shuffled_eq {keys : List OrderKey} (compared : ∀ key ∈ keys, key.direction ≠ .shuffle)
    (shuffle : Shuffle) (rows : List (List Value × Record)) :
    shuffled shuffle keys rows = rows := by
  refine if_neg fun asked => ?_
  obtain ⟨key, member, direction⟩ := List.any_eq_true.mp asked
  exact compared key member (of_decide_eq_true direction)

/-- Sorting rows never fails, since a key that is missing is null. -/
theorem sort_rows_eq (shuffle : Shuffle) {keys : List OrderKey}
    (compared : ∀ key ∈ keys, key.direction ≠ .shuffle) (rows : List Record) :
    sort shuffle keys (rows.map .ok) = .ok (stableSort (orderOf keys) rows) := by
  have sorted := map_stableSort (fun a b : List Value × Record => keysOrder keys a.1 b.1)
    (fun r => (keys.map fun key => r.valueAt key.field, r)) rows
  simp only [keysOrder_values] at sorted
  rw [sort, keyedAll_rows]
  change Except.ok ((stableSort _ (shuffled shuffle keys (rows.map _))).map Prod.snd) = _
  rw [shuffled_eq compared, ← sorted, List.map_map]
  exact congrArg Except.ok (List.map_id _)

/-- Sorting by several keys is stable. It gives the same rows in the order of the keys, and among
the rows that tie with any one of them those of the input in their order. -/
theorem sort_rows {keys : List OrderKey} {rows : List Record}
    (compares : ∀ key ∈ keys, key.Compares rows) (shuffle : Shuffle) :
    ∃ sorted, sort shuffle keys (rows.map .ok) = .ok sorted ∧ sorted.Perm rows ∧
      sorted.Pairwise (InOrder keys) ∧
      ∀ r ∈ rows, sorted.filter (tied keys r) = rows.filter (tied keys r) := by
  have preorder := isPreorderOn_orderOf compares
  refine ⟨stableSort (orderOf keys) rows,
    sort_rows_eq shuffle (fun key member => (compares key member).ne_shuffle) rows,
    stableSort_perm _ rows, ?_, ?_⟩
  · exact (pairwise_stableSort preorder).imp inOrder_of_orderOf
  · intro r member
    refine filter_stableSort fun a ha b hb first second => ?_
    have level : orderOf keys a b = .eq := preorder.tied member ha hb
      ((orderOf_eq_iff keys r a).mpr first) ((orderOf_eq_iff keys r b).mpr second)
    rw [level]
    decide

/-- Rows of which one has no price, and two tie in price and name. -/
def pricedRows : List Record :=
  [⟨[("price", .int 5), ("name", .text "b10")]⟩, ⟨[("name", .text "b2")]⟩,
    ⟨[("price", .text "5.0"), ("name", .text "B10")]⟩,
    ⟨[("price", .float 5.0), ("name", .text "b2")]⟩]

/-- The highest price first, and rows of one price by name. -/
def priceKeys : List OrderKey :=
  [⟨⟨"price", [.key "price"]⟩, .desc⟩, ⟨⟨"name", [.key "name"]⟩, .natural⟩]

theorem sort_rows_priced :
    (∀ key ∈ priceKeys, key.Compares pricedRows) ∧
      ∃ sorted, sort .inPlace priceKeys (pricedRows.map .ok) = .ok sorted ∧ sorted.Perm pricedRows ∧
        sorted.Pairwise (InOrder priceKeys) ∧
        ∀ r ∈ pricedRows, sorted.filter (tied priceKeys r) =
          pricedRows.filter (tied priceKeys r) := by
  have compares : ∀ key ∈ priceKeys, key.Compares pricedRows := by
    intro key member
    simp only [priceKeys, List.mem_cons, List.not_mem_nil, or_false] at member
    rcases member with rfl | rfl
    · exact ⟨Value.sortOrder, rfl, by decide +kernel⟩
    · exact ⟨Value.naturalOrder, rfl, by decide +kernel⟩
  exact ⟨compares, sort_rows compares .inPlace⟩

end Rows

end RecordQuery
