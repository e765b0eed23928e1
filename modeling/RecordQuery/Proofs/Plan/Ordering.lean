import RecordQuery.Proofs.Ordering.Successive
import RecordQuery.Proofs.Plan.Stage
import RecordQuery.Proofs.Statement.Draft
import RecordQuery.Result

namespace RecordQuery

theorem Results.freeze_eq (results : Results) :
    results.freeze = (results.fetchAll none).map FrozenResult.mk := by
  cases results <;> rfl

namespace FrozenResult

/-- The rows put in order by one key after the other, from the last one to the first one. -/
def sortedBy (f : FrozenResult) (keys : List OrderKey) (shuffle : Shuffle) :
    Except QueryError FrozenResult :=
  keys.foldrM (fun key sorted => sorted.sorted key.field.text key.direction shuffle) f

theorem sorted_eq (f : FrozenResult) {key : OrderKey}
    (read : FieldPath.forQuery key.field.text = .ok key.field)
    (compared : key.direction ≠ .shuffle) (shuffle : Shuffle) :
    f.sorted key.field.text key.direction shuffle = .ok ⟨stableSort key.order f.rows⟩ := by
  have values := map_stableSort (fun a b : Value × Record => key.direction.order a.1 b.1)
    (fun r => (r.valueAt key.field, r)) f.rows
  rw [sorted, read]
  change Except.bind (f.rows.mapM _) _ = _
  rw [mapM_ok (g := fun r => (r.valueAt key.field, r))]
  · simp only [if_neg compared]
    change Except.ok (mk ((stableSort _ (f.rows.map _)).map Prod.snd)) = _
    rw [← values, List.map_map]
    exact congrArg (fun rows => Except.ok (mk rows)) (List.map_id _)
  · intro r _
    rw [r.lookupPath_lenient]

theorem sortedBy_eq (f : FrozenResult) {keys : List OrderKey}
    (read : ∀ key ∈ keys, FieldPath.forQuery key.field.text = .ok key.field)
    (compared : ∀ key ∈ keys, key.direction ≠ .shuffle) (shuffle : Shuffle) :
    f.sortedBy keys shuffle =
      .ok ⟨keys.foldr (fun key rows => stableSort key.order rows) f.rows⟩ := by
  induction keys with
  | nil => rfl
  | cons key keys ih =>
    obtain ⟨first, rest⟩ := List.forall_mem_cons.mp read
    obtain ⟨own, others⟩ := List.forall_mem_cons.mp compared
    have later := ih rest others
    rw [sortedBy] at later ⊢
    rw [List.foldrM_cons, later]
    exact sorted_eq _ first own shuffle

end FrozenResult

namespace Query

/-- The frozen result of a query, or what goes wrong on the way. -/
def freeze (q : Query) (ambient : Ambient) (source : Source) : Except QueryError FrozenResult := do
  let results ← q.execute ambient source
  results.freeze

theorem freeze_eq (q : Query) (ambient : Ambient) (source : Source) :
    q.freeze ambient source = (q.fetch ambient source).map FrozenResult.mk := by
  unfold freeze fetch
  cases q.execute ambient source with
  | error e => rfl
  | ok results => exact results.freeze_eq

/-- A query with other keys that its rows are ordered by. -/
def ordered (q : Query) (keys : List OrderKey) : Query :=
  { q with orderBy := keys }

theorem ordered_nil {q : Query} (unordered : q.orderBy = []) : q.ordered [] = q := by
  obtain ⟨selectAll, fields, distinct, locator, joins, before, after, groupBy, orderBy, limit,
    offset, settings⟩ := q
  cases unordered
  rfl

/-- What a query without an order, an offset and a limit gives is sorted last of all if it is given
an order. -/
theorem run_ordered {q : Query} (unordered : q.orderBy = []) (offset : q.offset = none)
    (limit : q.limit = none) {keys : List OrderKey} (present : keys.isEmpty = false)
    (ambient : Ambient) (source : Source) :
    (Plan.ofQuery (q.ordered keys)).run ambient source =
      ((Plan.ofQuery q).run ambient source).map fun items =>
        Rows.ofAll (Rows.sort (ambient.draws.shuffle q.settings.seed) keys items) := by
  obtain ⟨selectAll, fields, distinct, locator, joins, before, after, groupBy, orderBy, own, first,
    settings⟩ := q
  cases unordered
  cases offset
  cases limit
  rw [ordered, Plan.ofQuery, Plan.ofQuery, present]
  exact (Plan.isStage_sort keys settings.seed).run _ ambient source

theorem fetch_ordered {q : Query} (unordered : q.orderBy = []) (offset : q.offset = none)
    (limit : q.limit = none) {ambient : Ambient} {source : Source} {rows : List Record}
    (fetched : q.fetch ambient source = .ok rows) {keys : List OrderKey}
    (compares : ∀ key ∈ keys, key.Compares rows) :
    (q.ordered keys).fetch ambient source =
      .ok (keys.foldr (fun key sorted => stableSort key.order sorted) rows) := by
  cases present : keys.isEmpty with
  | true =>
    obtain rfl := List.isEmpty_iff.mp present
    rw [ordered_nil unordered]
    exact fetched
  | false =>
    rw [fetch_eq, run_ordered unordered offset limit present, run_of_fetch fetched,
      ← Rows.stableSort_orderOf compares]
    change (Rows.ofAll (Rows.sort _ keys (rows.map .ok)) |> Rows.collect) = _
    rw [Rows.sort_rows_eq _ fun key member => (compares key member).ne_shuffle]
    exact Rows.collect_ok rfl

end Query

namespace Draft

/-- The frozen result of the query of a draft, or what goes wrong on the way. -/
def freeze (d : Draft) (ambient : Ambient) (source : Source) : Except QueryError FrozenResult := do
  let q ← d.build.mapError .build
  q.freeze ambient source

/-- Adds keys that the rows are ordered by, one after the other. -/
def orderedBy (d : Draft) (keys : List OrderKey) : Except BuildFault Draft :=
  keys.foldlM (fun d key => d.addOrderBy key.field.text key.direction) d

theorem orderedBy_eq {d : Draft} (settled : d.pending = none) {keys : List OrderKey}
    (read : ∀ key ∈ keys, FieldPath.forQuery key.field.text = .ok key.field) :
    d.orderedBy keys = .ok { d with orderBy := d.orderBy ++ keys } := by
  rw [← foldl_withOrderKey]
  induction keys generalizing d with
  | nil => rfl
  | cons key keys ih =>
    obtain ⟨first, rest⟩ := List.forall_mem_cons.mp read
    rw [orderedBy, List.foldlM_cons, addOrderBy_of_read settled key first]
    exact ih (d := d.withOrderKey key) settled rest

theorem build_ordered (d : Draft) (keys : List OrderKey) :
    { d with orderBy := keys }.build = d.build.map fun q => q.ordered keys := by
  unfold build
  cases d.pending with
  | some pending => rfl
  | none =>
    cases d.filter.tree with
    | error fault => rfl
    | ok filter => cases d.having.tree <;> rfl

theorem pending_of_build {d : Draft} {q : Query} (built : d.build = .ok q) : d.pending = none := by
  unfold build at built
  split at built
  · cases built
  · assumption

/-- To order the rows of a query by keys is the same as to order its frozen result by one key after
the other, from the last one to the first one. -/
theorem freeze_orderedBy {d : Draft} {ambient : Ambient} {source : Source} {f : FrozenResult}
    {keys : List OrderKey} (unordered : d.orderBy = []) (offset : d.offset = none)
    (limit : d.limit = none) (frozen : d.freeze ambient source = .ok f)
    (read : ∀ key ∈ keys, FieldPath.forQuery key.field.text = .ok key.field)
    (compares : ∀ key ∈ keys, key.Compares f.rows) (shuffle : Shuffle) :
    ∃ ordered sorted, d.orderedBy keys = .ok ordered ∧ f.sortedBy keys shuffle = .ok sorted ∧
      ordered.freeze ambient source = .ok sorted := by
  cases built : d.build with
  | error fault =>
    rw [freeze, built] at frozen
    cases frozen
  | ok q =>
    have compared : ∀ key ∈ keys, key.direction ≠ .shuffle :=
      fun key member => (compares key member).ne_shuffle
    refine ⟨_, _, orderedBy_eq (pending_of_build built) read, f.sortedBy_eq read compared shuffle,
      ?_⟩
    have fetched : q.fetch ambient source = .ok f.rows := by
      rw [freeze, built] at frozen
      change q.freeze ambient source = .ok f at frozen
      rw [Query.freeze_eq] at frozen
      cases fetched : q.fetch ambient source with
      | error e => rw [fetched] at frozen; cases frozen
      | ok rows => rw [fetched] at frozen; cases frozen; rfl
    obtain ⟨_, _, _, _, rfl⟩ := exists_of_build built
    rw [freeze, unordered, List.nil_append, build_ordered, built]
    change (Query.ordered _ keys).freeze ambient source = _
    rw [Query.freeze_eq, Query.fetch_ordered unordered offset limit fetched compares]
    rfl

/-- Records of which two tie in price, and of which one has no name. -/
def labelledRows : List Record :=
  [⟨[("price", .int 5), ("name", .text "b10")]⟩, ⟨[("price", .int 7)]⟩,
    ⟨[("price", .text "5.0"), ("name", .text "b2")]⟩,
    ⟨[("price", .int 7), ("name", .text "a")]⟩]

theorem freeze_orderedBy_labelled :
    let d := (Draft.empty .default).all
    let ambient : Ambient := ⟨⟨0, 0, 0⟩, ""⟩
    let source : Source := ⟨"", fun _ => .ok (labelledRows.map .ok)⟩
    let keys : List OrderKey :=
      [⟨⟨"price", [.key "price"]⟩, .desc⟩, ⟨⟨"name", [.key "name"]⟩, .natural⟩]
    d.orderBy = [] ∧ d.offset = none ∧ d.limit = none ∧
      d.freeze ambient source = .ok ⟨labelledRows⟩ ∧
      (∀ key ∈ keys, FieldPath.forQuery key.field.text = .ok key.field) ∧
      (∀ key ∈ keys, key.Compares labelledRows) ∧
      ∃ ordered sorted, d.orderedBy keys = .ok ordered ∧
        FrozenResult.sortedBy ⟨labelledRows⟩ keys .inPlace = .ok sorted ∧
        ordered.freeze ambient source = .ok sorted := by
  intro d ambient source keys
  have frozen : d.freeze ambient source = .ok ⟨labelledRows⟩ := rfl
  have read : ∀ key ∈ keys, FieldPath.forQuery key.field.text = .ok key.field := by
    decide +kernel
  have compares : ∀ key ∈ keys, key.Compares labelledRows := by
    intro key member
    simp only [keys, List.mem_cons, List.not_mem_nil, or_false] at member
    rcases member with rfl | rfl
    · exact ⟨Value.sortOrder, rfl, by decide +kernel⟩
    · exact ⟨Value.naturalOrder, rfl, by decide +kernel⟩
  exact ⟨rfl, rfl, rfl, frozen, read, compares,
    freeze_orderedBy rfl rfl rfl frozen read compares .inPlace⟩

end Draft

end RecordQuery
