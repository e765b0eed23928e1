import RecordQuery.Proofs.Join.Stream
import RecordQuery.Proofs.Plan.Stage

namespace RecordQuery

namespace Rows

/-- Whether errors among the items that a stage is given leave an error among those that it gives,
maybe another one. -/
def KeepsErrors (work : List Item → List Item) : Prop :=
  ∀ items, HasError items → HasError (work items)

theorem keepsErrors_filter (mode : Strictness) (conditions : ConditionTree) :
    KeepsErrors (filter mode conditions) := by
  rintro items ⟨e, member⟩
  exact ⟨e, List.mem_filterMap.mpr ⟨.error e, member, rfl⟩⟩

theorem keepsErrors_mapRows (f : Record → Item) : KeepsErrors (mapRows f) := by
  rintro items ⟨e, member⟩
  exact ⟨e, List.mem_map.mpr ⟨.error e, member, rfl⟩⟩

theorem hasError_ofAll {all : Except QueryError (List Record)} (failed : ∃ e, all = .error e) :
    HasError (ofAll all) := by
  obtain ⟨e, rfl⟩ := failed
  exact ⟨e, List.mem_singleton.mpr rfl⟩

theorem groupInto_hasError (fields : List SelectedField) (paths : List FieldPath)
    (groups : List (List KeyPart × Bucket)) {items : List Item} (failed : HasError items) :
    ∃ e, groupInto fields paths groups items = .error e := by
  induction items generalizing groups with
  | nil => exact absurd failed (not_hasError_rows [])
  | cons item rest ih =>
    cases item with
    | error e => exact ⟨e, rfl⟩
    | ok r =>
      rw [groupInto]
      split
      · exact ⟨_, rfl⟩
      · split
        · exact ⟨_, rfl⟩
        · exact ih _ (hasError_of_cons failed)

theorem keepsErrors_aggregate (ambient : Ambient) (selectAll : Bool) (fields : List SelectedField)
    (groupBy : List FieldPath) :
    KeepsErrors fun items => ofAll (aggregate ambient selectAll fields groupBy items) := by
  intro items failed
  obtain ⟨e, grouped⟩ := groupInto_hasError fields (groupPaths groupBy fields) [] failed
  refine hasError_ofAll ⟨e, ?_⟩
  rw [aggregate, grouped]
  rfl

theorem keyedAll_hasError (keys : List OrderKey) {items : List Item} (failed : HasError items) :
    ∃ e, keyedAll keys items = .error e := by
  induction items with
  | nil => exact absurd failed (not_hasError_rows [])
  | cons item rest ih =>
    cases item with
    | error e => exact ⟨e, rfl⟩
    | ok r =>
      obtain ⟨e, later⟩ := ih (hasError_of_cons failed)
      rw [keyedAll, later]
      split
      · exact ⟨_, rfl⟩
      · exact ⟨e, rfl⟩

theorem keepsErrors_sort (shuffle : Shuffle) (keys : List OrderKey) :
    KeepsErrors fun items => ofAll (sort shuffle keys items) := by
  intro items failed
  obtain ⟨e, keyed⟩ := keyedAll_hasError keys failed
  refine hasError_ofAll ⟨e, ?_⟩
  rw [sort, keyed]
  rfl

theorem unseen_hasError (seen : Std.HashSet String) {items : List Item} (failed : HasError items) :
    HasError (unseen seen items) := by
  induction items generalizing seen with
  | nil => exact absurd failed (not_hasError_rows [])
  | cons item rest ih =>
    cases item with
    | error e => exact ⟨e, List.mem_cons_self ..⟩
    | ok r =>
      rw [unseen]
      split
      · exact ih _ (hasError_of_cons failed)
      · exact hasError_cons _ (ih _ (hasError_of_cons failed))

theorem keepsErrors_distinct : KeepsErrors distinct :=
  fun _ failed => unseen_hasError ∅ failed

/-- Only without a limit are all items read. -/
theorem keepsErrors_page (skip : Nat) : KeepsErrors (page skip none) := by
  intro items failed
  induction items generalizing skip with
  | nil => exact absurd failed (not_hasError_rows [])
  | cons item rest ih =>
    cases item with
    | error e => exact ⟨e, List.mem_cons_self ..⟩
    | ok r =>
      have later := hasError_of_cons failed
      cases skip with
      | zero => exact hasError_cons _ (ih 0 later)
      | succ skip => exact ih skip later

end Rows

theorem JoinTerms.keepsErrors_relation (terms : JoinTerms) (rows : List Record) :
    Rows.KeepsErrors (terms.relation rows) := by
  rintro left ⟨e, member⟩
  refine ⟨e, List.mem_append_left _ (List.mem_flatMap.mpr ⟨.error e, member, ?_⟩)⟩
  exact List.mem_singleton.mpr rfl

namespace Plan

/-- Whether a plan runs over a source without any error. -/
def Clean (plan : Plan) (ambient : Ambient) (source : Source) : Prop :=
  ∃ items, plan.run ambient source = .ok items ∧ ¬ Rows.HasError items

variable {ambient : Ambient} {source : Source} {input right : Plan}

theorem IsStage.clean {stage : Plan → Plan} {work : Ambient → List Item → List Item} {holds : Bool}
    (isStage : IsStage stage work holds) (keeps : Rows.KeepsErrors (work ambient))
    (clean : (stage input).Clean ambient source) : input.Clean ambient source := by
  obtain ⟨items, ran, noError⟩ := clean
  obtain ⟨given, inner, rfl⟩ := isStage.exists_given ran
  exact ⟨given, inner, fun failed => noError (keeps given failed)⟩

/-- A stage that is left out keeps all errors. -/
theorem clean_stageIf {stage : Plan → Plan} {present : Bool}
    (clean : (stageIf present stage input).Clean ambient source)
    (through : (stage input).Clean ambient source → input.Clean ambient source) :
    input.Clean ambient source := by
  cases present with
  | true => exact through clean
  | false => exact clean

/-- A join only runs where both sides do, the right one without an error. -/
theorem exists_of_run_join {terms : JoinTerms} {items : List Item}
    (ran : (Plan.join input right terms).run ambient source = .ok items) :
    ∃ (left : List Item) (rows : List Record), input.run ambient source = .ok left ∧
      right.run ambient source = .ok (rows.map .ok) ∧ items = terms.relation rows left := by
  obtain ⟨left, leftRun, behind⟩ := exists_of_bind_ok ran
  obtain ⟨rightItems, rightRun, behind⟩ := exists_of_bind_ok behind
  obtain ⟨rows, collected, -⟩ := exists_of_bind_ok behind
  rw [Plan.run_join leftRun rightRun collected] at ran
  cases ran
  exact ⟨left, rows, leftRun, rightRun.trans (congrArg Except.ok (Rows.eq_of_collect collected)),
    rfl⟩

/-- An error on either side of a join is an error of the join. -/
theorem clean_join {terms : JoinTerms}
    (clean : (Plan.join input right terms).Clean ambient source) :
    input.Clean ambient source ∧ right.Clean ambient source := by
  obtain ⟨items, ran, noError⟩ := clean
  obtain ⟨left, rows, leftRun, rightRun, rfl⟩ := exists_of_run_join ran
  refine ⟨⟨left, leftRun, fun failed => ?_⟩, ⟨_, rightRun, Rows.not_hasError_rows rows⟩⟩
  exact noError (terms.keepsErrors_relation rows left failed)

theorem clean_ofJoins {joins : List Join} (clean : (ofJoins input joins).Clean ambient source) :
    input.Clean ambient source ∧
      ∀ join ∈ joins, (ofQuery join.right).Clean ambient source := by
  induction joins generalizing input with
  | nil => exact ⟨clean, fun _ absent => nomatch absent⟩
  | cons first rest ih =>
    obtain ⟨right, terms⟩ := first
    obtain ⟨joined, later⟩ := ih clean
    obtain ⟨left, here⟩ := clean_join joined
    exact ⟨left, List.forall_mem_cons.mpr ⟨here, later⟩⟩

/-- If the plan of a query without a limit runs without an error, then so do what it reads from and
the plans of its right queries. -/
theorem clean_ofQuery {q : Query} (unlimited : q.limit = none)
    (clean : (ofQuery q).Clean ambient source) :
    (scan q.locator).Clean ambient source ∧
      ∀ join ∈ q.joins, (ofQuery join.right).Clean ambient source := by
  obtain ⟨selectAll, fields, distinct, locator, joins, before, after, groupBy, orderBy, limit,
    offset, settings⟩ := q
  cases unlimited
  rw [ofQuery] at clean
  have sorted := clean_stageIf clean ((isStage_paginate _ none).clean (Rows.keepsErrors_page _))
  have once := clean_stageIf sorted ((isStage_sort orderBy settings.seed).clean
    (Rows.keepsErrors_sort _ orderBy))
  have kept := clean_stageIf once (isStage_distinct.clean Rows.keepsErrors_distinct)
  have selected := clean_stageIf kept
    ((isStage_having after).clean (Rows.keepsErrors_filter .strict after))
  have filtered := (isStage_select _ selectAll fields groupBy).clean (by
    split
    · exact Rows.keepsErrors_aggregate ambient selectAll fields groupBy
    · exact Rows.keepsErrors_mapRows _) selected
  exact clean_ofJoins (clean_stageIf filtered
    ((isStage_filter before).clean (Rows.keepsErrors_filter .lenient before)))

end Plan

namespace Query

/-- Whether neither a query nor any query on the right of its joins has a limit. -/
inductive Unlimited : Query → Prop
  | intro {q : Query} (own : q.limit = none) (inner : ∀ join ∈ q.joins, Unlimited join.right) :
      Unlimited q

/-- What a query opens: the records that it reads, the items of the queries on the right of its
joins, and what those queries open in turn. -/
inductive Opens (ambient : Ambient) (source : Source) : Query → List Item → Prop
  | records {q : Query} {items : List Item}
      (opened : source.records (q.locator.getD .all) = .ok items) : Opens ambient source q items
  | right {q : Query} {join : Join} {items : List Item} (member : join ∈ q.joins)
      (ran : (Plan.ofQuery join.right).run ambient source = .ok items) :
      Opens ambient source q items
  | inner {q : Query} {join : Join} {items : List Item} (member : join ∈ q.joins)
      (opens : Opens ambient source join.right items) : Opens ambient source q items

variable {q : Query} {ambient : Ambient} {source : Source} {items : List Item}

theorem Opens.clean (opens : q.Opens ambient source items) (unlimited : q.Unlimited)
    (clean : (Plan.ofQuery q).Clean ambient source) : ¬ Rows.HasError items := by
  induction opens with
  | records opened =>
    obtain ⟨own, _⟩ := unlimited
    obtain ⟨found, ran, noError⟩ := (Plan.clean_ofQuery own clean).1
    cases opened.symm.trans ran
    exact noError
  | right member ran =>
    obtain ⟨own, _⟩ := unlimited
    obtain ⟨found, again, noError⟩ := (Plan.clean_ofQuery own clean).2 _ member
    cases ran.symm.trans again
    exact noError
  | inner member _ ih =>
    obtain ⟨own, inner⟩ := unlimited
    exact ih (inner _ member) ((Plan.clean_ofQuery own clean).2 _ member)

/-- No stage swallows an error. Without limits, an error in anything that a query opens is an error
for somebody who asks for all rows. -/
theorem fetch_hasError (unlimited : q.Unlimited) (opens : q.Opens ambient source items)
    (failed : Rows.HasError items) : ∃ e, q.fetch ambient source = .error e := by
  cases fetched : q.fetch ambient source with
  | error e => exact ⟨e, rfl⟩
  | ok rows =>
    have clean : (Plan.ofQuery q).Clean ambient source :=
      ⟨rows.map .ok, run_of_fetch fetched, Rows.not_hasError_rows rows⟩
    exact absurd failed (opens.clean unlimited clean)

/-- Records, and beside them a dataset with a number among its records. -/
def damagedSource : MemorySource where
  base := .array [.record [("a", .int 1)], .record [("a", .int 2)]]
  named := ⟨[("d", .array [.record [("k", .int 1)], .int 7])]⟩

/-- Distinct records in order and without the first five, with the dataset joined to them. -/
def damagedQuery : Query where
  selectAll := true
  fields := []
  distinct := true
  locator := none
  joins := [⟨{
    selectAll := true
    fields := []
    distinct := false
    locator := some ⟨none, some "d", none⟩
    joins := []
    filter := ⟨[]⟩
    having := ⟨[]⟩
    groupBy := []
    orderBy := []
    limit := none
    offset := some 1
    settings := .default },
    ⟨.left, none, ⟨"a", [.key "a"]⟩, .equal, ⟨"k", [.key "k"]⟩⟩⟩]
  filter := ⟨[(.and, .test ⟨⟨"a", [.key "a"]⟩, .greater, .int 1⟩)]⟩
  having := ⟨[]⟩
  groupBy := []
  orderBy := [⟨⟨"a", [.key "a"]⟩, .desc⟩]
  limit := none
  offset := some 5
  settings := .default

theorem fetch_hasError_damaged :
    let ambient : Ambient := ⟨⟨0, 0, 0⟩, ""⟩
    let items : List Item := [.ok ⟨[("k", .int 1)]⟩, .error (.source (.notRecord "int"))]
    damagedQuery.Unlimited ∧ damagedQuery.Opens ambient damagedSource.toSource items ∧
      Rows.HasError items ∧ ∃ e, damagedQuery.fetch ambient damagedSource.toSource = .error e := by
  intro ambient items
  have unlimited : damagedQuery.Unlimited := by
    refine .intro rfl fun join member => ?_
    cases List.mem_singleton.mp member
    exact .intro rfl fun _ absent => nomatch absent
  have opens : damagedQuery.Opens ambient damagedSource.toSource items :=
    .inner (List.mem_singleton.mpr rfl) (.records rfl)
  have failed : Rows.HasError items := ⟨_, List.mem_cons_of_mem _ (List.mem_singleton.mpr rfl)⟩
  exact ⟨unlimited, opens, failed, fetch_hasError unlimited opens failed⟩

end Query

end RecordQuery
