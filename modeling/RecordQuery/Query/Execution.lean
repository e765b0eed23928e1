import RecordQuery.Plan
import RecordQuery.Result
import RecordQuery.Rows.Grouping
import RecordQuery.Rows.Join
import RecordQuery.Source

namespace RecordQuery

/-- The items that a plan gives over a source. It fails when a source cannot be opened, or when the
right side of a join has an error. -/
def Plan.run (ambient : Ambient) (source : Source) : Plan → Except QueryError (List Item)
  | .scan locator => source.records (locator.getD .all)
  | .join input right terms => do
    let left ← input.run ambient source
    let rightItems ← right.run ambient source
    let rows ← Rows.collect rightItems
    let joiner ← Joiner.ofRows terms terms.operator.isEquality rows
    pure (JoinStream.start joiner left).drain
  | .filter input conditions => do
    let items ← input.run ambient source
    pure (Rows.filter .lenient conditions items)
  | .project input selectAll fields => do
    let items ← input.run ambient source
    pure (Rows.mapRows (Rows.projectRow ambient selectAll fields) items)
  | .aggregate input selectAll fields groupBy => do
    let items ← input.run ambient source
    pure (Rows.ofAll (Rows.aggregate ambient selectAll fields groupBy items))
  | .having input conditions => do
    let items ← input.run ambient source
    pure (Rows.filter .strict conditions items)
  | .distinct input => do
    let items ← input.run ambient source
    pure (Rows.distinct items)
  | .sort input keys seed => do
    let items ← input.run ambient source
    pure (Rows.ofAll (Rows.sort (ambient.draws.shuffle seed) keys items))
  | .paginate input offset limit => do
    let items ← input.run ambient source
    pure (Rows.page offset limit items)

/-- Carries out a query over a source. Rows that are held in memory anyway are all read before
anything is given back, so an error among them is the error of the whole query. -/
def Query.execute (q : Query) (ambient : Ambient) (source : Source) :
    Except QueryError Results := do
  let plan := Plan.ofQuery q
  let items ← plan.run ambient source
  if plan.materializes then
    let rows ← Rows.collect items
    pure (.frozen ⟨rows⟩)
  else pure (.stream ⟨items⟩)

end RecordQuery
