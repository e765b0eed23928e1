import RecordQuery.Proofs.Except
import RecordQuery.Proofs.Plan.Stage
import RecordQuery.Proofs.Rows.Page
import RecordQuery.Proofs.Statement.Draft

namespace RecordQuery

/-- Slices of one length, one behind the other, are the front of a list. -/
theorem flatten_slices {α : Type} (as : List α) (size m : Nat) :
    ((List.range m).map fun i => (as.drop (i * size)).take size).flatten = as.take (m * size) := by
  induction m with
  | zero => simp
  | succ m ih =>
    rw [List.range_succ, List.map_append, List.flatten_append, ih, Nat.succ_mul, List.take_add]
    simp

namespace Query

/-- A query with an offset and a limit. -/
def paged (q : Query) (skip limit : Nat) : Query :=
  { q with offset := some skip, limit := some limit }

/-- The items of a query with an offset and a limit are a page of those without them. -/
theorem run_paged {q : Query} (offset : q.offset = none) (limit : q.limit = none)
    (skip count : Nat) (ambient : Ambient) (source : Source) :
    (Plan.ofQuery (q.paged skip count)).run ambient source =
      ((Plan.ofQuery q).run ambient source).map (Rows.page skip (some count)) := by
  obtain ⟨selectAll, fields, distinct, locator, joins, before, after, groupBy, orderBy, own, first,
    settings⟩ := q
  cases offset
  cases limit
  rw [paged, Plan.ofQuery, Plan.ofQuery]
  exact (Plan.isStage_paginate skip (some count)).run _ ambient source

theorem fetch_paged {q : Query} (offset : q.offset = none) (limit : q.limit = none)
    {ambient : Ambient} {source : Source} {rows : List Record}
    (fetched : q.fetch ambient source = .ok rows) (skip count : Nat) :
    (q.paged skip count).fetch ambient source = .ok ((rows.drop skip).take count) := by
  rw [fetch_eq, run_paged offset limit, run_of_fetch fetched]
  exact Rows.collect_ok (Rows.page_rows skip count rows)

end Query

namespace Draft

/-- All rows that the query of a draft gives, or what goes wrong on the way. -/
def fetch (d : Draft) (ambient : Ambient) (source : Source) : Except QueryError (List Record) := do
  let q ← d.build.mapError .build
  q.fetch ambient source

/-- The rows of the first pages, one page after the other. -/
def fetchPages (d : Draft) (ambient : Ambient) (source : Source) (size count : Nat) :
    Except QueryError (List (List Record)) :=
  (List.range count).mapM fun i => do
    let paged ← (d.page (i + 1) size).mapError .build
    paged.fetch ambient source

theorem build_paged (d : Draft) (skip count : Nat) :
    ((d.setOffset skip).setLimit count).build = d.build.map fun q => q.paged skip count := by
  unfold build setOffset setLimit
  cases d.pending with
  | some pending => rfl
  | none =>
    cases d.filter.tree with
    | error fault => rfl
    | ok filter => cases d.having.tree <;> rfl

section

variable {d : Draft} {ambient : Ambient} {source : Source} {rows : List Record}

theorem fetch_paged (offset : d.offset = none) (limit : d.limit = none)
    (fetched : d.fetch ambient source = .ok rows) (skip count : Nat) :
    ((d.setOffset skip).setLimit count).fetch ambient source =
      .ok ((rows.drop skip).take count) := by
  obtain ⟨q, told, fetched⟩ := exists_of_bind_ok fetched
  have built := ok_of_mapError_ok told
  rw [fetch, build_paged, built]
  obtain ⟨_, _, _, _, rfl⟩ := exists_of_build built
  exact Query.fetch_paged offset limit fetched skip count

/-- An offset that is too large to be counted skips all rows as well. -/
theorem fetch_page (offset : d.offset = none) (limit : d.limit = none)
    (fetched : d.fetch ambient source = .ok rows) (countable : rows.length ≤ countLimit)
    (i size : Nat) :
    ((d.page (i + 1) size).mapError .build >>= fun paged => paged.fetch ambient source) =
      .ok ((rows.drop (i * size)).take size) := by
  refine (fetch_paged offset limit fetched (min (i * size) countLimit) size).trans ?_
  by_cases small : i * size ≤ countLimit
  · rw [Nat.min_eq_left small]
  · rw [List.drop_eq_nil_of_le (by omega), List.drop_eq_nil_of_le (by omega)]

theorem fetchPages_eq (offset : d.offset = none) (limit : d.limit = none)
    (fetched : d.fetch ambient source = .ok rows) (countable : rows.length ≤ countLimit)
    (size count : Nat) :
    d.fetchPages ambient source size count =
      .ok ((List.range count).map fun i => (rows.drop (i * size)).take size) :=
  mapM_ok fun i _ => fetch_page offset limit fetched countable i size

end

/-- Pages are exact. A page leaves out the first rows and ends behind the last row that it may
have, and errors on the way are kept and not counted. So an offset and a limit give a slice of the
rows that there are without them, and pages counted from one on give them without a gap, as many of
them as can be counted. -/
theorem pages_exact :
    (∀ skip limit items,
      Rows.page skip limit items = Rows.cut limit (Rows.withoutFirst skip items)) ∧
    (∀ q : Query, q.offset = none → q.limit = none → ∀ skip count ambient source,
      (Plan.ofQuery (q.paged skip count)).run ambient source =
        ((Plan.ofQuery q).run ambient source).map (Rows.page skip (some count))) ∧
    ∀ (d : Draft) (ambient : Ambient) (source : Source) (rows : List Record),
      d.offset = none → d.limit = none → d.fetch ambient source = .ok rows →
        (∀ skip count, ((d.setOffset skip).setLimit count).fetch ambient source =
          .ok ((rows.drop skip).take count)) ∧
        (rows.length ≤ countLimit → ∀ size count, ∃ pages,
          d.fetchPages ambient source size count = .ok pages ∧
            pages.flatten = rows.take (count * size)) := by
  refine ⟨Rows.page_eq_cut, fun q offset limit => Query.run_paged offset limit, ?_⟩
  intro d ambient source rows offset limit fetched
  refine ⟨fetch_paged offset limit fetched, fun countable size count => ?_⟩
  exact ⟨_, fetchPages_eq offset limit fetched countable size count, flatten_slices rows size count⟩

/-- Three rows in pages of two. -/
theorem pages_exact_three :
    let d := (Draft.empty .default).all
    let ambient : Ambient := ⟨⟨0, 0, 0⟩, ""⟩
    let rows : List Record := [⟨[("a", .int 1)]⟩, ⟨[("a", .null)]⟩, ⟨[("a", .int 3)]⟩]
    let source : Source := ⟨"", fun _ => .ok (rows.map .ok)⟩
    d.offset = none ∧ d.limit = none ∧ d.fetch ambient source = .ok rows ∧
      rows.length ≤ countLimit ∧
      ((d.setOffset 1).setLimit 1).fetch ambient source = .ok ((rows.drop 1).take 1) ∧
      ∃ pages, d.fetchPages ambient source 2 2 = .ok pages ∧ pages.flatten = rows.take (2 * 2) := by
  intro d ambient rows source
  have fetched : d.fetch ambient source = .ok rows := rfl
  have countable : rows.length ≤ countLimit := by decide
  obtain ⟨slices, pages⟩ := pages_exact.2.2 d ambient source rows rfl rfl fetched
  exact ⟨rfl, rfl, fetched, countable, slices 1 1, pages countable 2 2⟩

end Draft

end RecordQuery
