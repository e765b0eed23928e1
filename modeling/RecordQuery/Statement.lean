import RecordQuery.Statement.Reading

namespace RecordQuery

/-- Takes the steps of a statement on a draft, as far as they go, and tells why they go no further
if they do not. -/
def Draft.read (d : Draft) (text : String) : Draft × Option QueryError :=
  let (steps, e) := Statement.stepsOf text
  match (NestedDraft.ofDraft d).takeAll steps with
  | (n, some refused) => (n.outermost, some refused)
  | (n, none) => (n.outermost, e)

/-- The query that a statement asks for. -/
def Query.ofText (settings : QuerySettings) (text : String) : Except QueryError Query :=
  match (Draft.empty settings).read text with
  | (_, some e) => .error e
  | (d, none) => d.build.mapError .build

end RecordQuery
