import Std.Data.HashMap
import RecordQuery.Decimal.Layout
import RecordQuery.Query
import RecordQuery.Rows

namespace RecordQuery

/-- The text that a value is looked up by in a hashed join, if it has one: that of a number, also
when the value is a text that denotes one, or that of another text. Zero has one text for both of
its signs. -/
def joinKey? (v : Value) : Option String :=
  match v.number? with
  | some n =>
    let x := n.toFloat
    let x := if x == 0.0 then 0.0 else x
    some (String.ofList ('n' :: ':' :: Double.positionalChars false x))
  | none =>
    match v with
    | .text s => some (String.ofList ('s' :: ':' :: s.toList))
    | _ => none

namespace JoinTerms

/-- The operator that says the same of exchanged operands. -/
def converse : Operator → Operator
  | .less => .greater
  | .lessOrEqual => .greaterOrEqual
  | .greater => .less
  | .greaterOrEqual => .lessOrEqual
  | other => other

/-- A path without the alias of the right side in front of it, if it has that. -/
def withoutAlias? (aliasName : Option String) (path : FieldPath) : Option FieldPath :=
  match aliasName, path.segments with
  | some aliasName, .key first :: _ :: _ =>
    if first = aliasName then
      FieldPath.ofText? (String.ofList (path.text.toList.drop (aliasName.length + 1)))
    else none
  | _, _ => none

/-- The key of left rows, the operator and the key of right rows. The key with the alias is the one
of right rows, on whichever side it is written. -/
def keys (terms : JoinTerms) : FieldPath × Operator × FieldPath :=
  match withoutAlias? terms.aliasName terms.rightKey with
  | some right => (terms.leftKey, terms.operator, right)
  | none =>
    match withoutAlias? terms.aliasName terms.leftKey with
    | some right => (terms.rightKey, converse terms.operator, right)
    | none => (terms.leftKey, terms.operator, terms.rightKey)

end JoinTerms

/-- A row of the right side with its number and the value of its key. -/
structure RightRow where
  number : Nat
  key : Value
  row : Record

/-- The right rows by their keys, and those without a key. -/
structure JoinIndex where
  keyed : Std.HashMap String (List RightRow)
  unkeyed : List RightRow

namespace JoinIndex

def add (index : JoinIndex) (r : RightRow) : JoinIndex :=
  match joinKey? r.key with
  | some key => { index with keyed := index.keyed.insert key (index.keyed.getD key [] ++ [r]) }
  | none => { index with unkeyed := index.unkeyed ++ [r] }

def ofRows (rows : List RightRow) : JoinIndex :=
  rows.foldl add ⟨∅, []⟩

end JoinIndex

/-- A join with its right side read. With an index, right rows are looked up by their keys. -/
structure Joiner where
  kind : JoinKind
  aliasName : Option String
  leftKey : FieldPath
  operator : Operator
  rows : List RightRow
  index : Option JoinIndex

namespace Joiner

/-- Reads the keys of the right rows, and puts them into an index when the join is `hashed`. -/
def ofRows (terms : JoinTerms) (hashed : Bool) (rows : List Record) : Except QueryError Joiner := do
  let (leftKey, operator, rightKey) := terms.keys
  let keys ← rows.mapM fun r => (r.lookupPath rightKey .lenient).mapError .ofValue
  let numbered := (keys.zip rows).zipIdx.map fun ((key, row), number) => ⟨number, key, row⟩
  let index := if hashed then some (JoinIndex.ofRows numbered) else none
  pure ⟨terms.kind, terms.aliasName, leftKey, operator, numbered, index⟩

/-- Puts a right row into a left one, under the alias or field by field. -/
def attach (j : Joiner) (left : Record) (right : Value) : Record :=
  match j.aliasName, right with
  | some aliasName, v => left.insert aliasName v
  | none, .record fields => left.merge ⟨fields⟩
  | none, _ => left

/-- What stands for the right row of a left row without a match. -/
def rightTemplate (j : Joiner) : Value :=
  match j.rows with
  | [] => .null
  | first :: _ => .ofRecord first.row.nullFilled

/-- The right rows that may match a value, in their order: those of the same key and those without a
key. All of them may match a value without a key, and any value when there is no index. -/
def candidates (j : Joiner) (v : Value) : List RightRow :=
  match j.index, joinKey? v with
  | some index, some key =>
    (index.keyed.getD key [] ++ index.unkeyed).mergeSort fun a b => a.number ≤ b.number
  | _, _ => j.rows

/-- The right rows that match a left row. -/
def probe (j : Joiner) (left : Record) : Except QueryError (List RightRow) :=
  match left.lookupPath j.leftKey .lenient with
  | .ok v => .ok ((j.candidates v).filter fun r => j.operator.apply v r.key)
  | .error e => .error (.ofValue e)

/-- The joined rows of a left row that right rows were found for. -/
def joined (j : Joiner) (left : Record) (found : List RightRow) : List Record :=
  if found.isEmpty then
    if j.kind.keepsLeft then [j.attach left j.rightTemplate] else []
  else found.map fun r => j.attach left (.ofRecord r.row)

/-- The right rows that no left row has matched, joined to a row of nulls. -/
def unmatched (j : Joiner) (matched : List Nat) (template : Record) : List Record :=
  if j.kind.keepsRight then
    (j.rows.filter fun r => !matched.contains r.number).map fun r =>
      j.attach template (.ofRecord r.row)
  else []

end Joiner

/-- A join that is under way: the left items still to be read, the numbers of the right rows matched
so far, the joined rows that come out next, a row of nulls with the keys of the first left row, and
whether the left side has come to its end. -/
structure JoinStream where
  joiner : Joiner
  left : List Item
  matched : List Nat
  pending : List Record
  template : Option Record
  leftDone : Bool

/-- What a join under way does next: it gives an item, goes on without one, or has come to its
end. -/
inductive JoinTurn where
  | item (item : Item) (next : JoinStream)
  | more (next : JoinStream)
  | done

/-- The join behind a turn, unless it has come to its end. -/
def JoinTurn.next? : JoinTurn → Option JoinStream
  | .item _ next => some next
  | .more next => some next
  | .done => none

namespace JoinStream

def start (joiner : Joiner) (left : List Item) : JoinStream where
  joiner
  left
  matched := []
  pending := []
  template := none
  leftDone := false

/-- Gives the next joined row, or reads a left item when none is left over. Behind the last left
item come the right rows that were not matched. -/
def turn (s : JoinStream) : JoinTurn :=
  match s.pending, s.leftDone, s.left with
  | row :: rest, _, _ => .item (.ok row) { s with pending := rest }
  | [], true, _ => .done
  | [], false, .ok left :: rest =>
    let template := some (s.template.getD left.nullFilled)
    match s.joiner.probe left with
    | .ok found =>
      .more { s with
        left := rest
        matched := s.matched ++ found.map RightRow.number
        pending := s.joiner.joined left found
        template }
    | .error e => .item (.error e) { s with left := rest, template }
  | [], false, .error e :: rest => .item (.error e) { s with left := rest }
  | [], false, [] =>
    .more { s with
      pending := s.joiner.unmatched s.matched (s.template.getD .empty)
      leftDone := true }

/-- How much a join under way still has to read, the end of the left side counted as an item. -/
def unread (s : JoinStream) : Nat :=
  if s.leftDone then 0 else s.left.length + 1

/-- A turn reads something or takes a joined row away. -/
theorem turn_decreases {s next : JoinStream} (turned : s.turn.next? = some next) :
    Prod.Lex (· < ·) (· < ·) (next.unread, next.pending.length) (s.unread, s.pending.length) := by
  obtain ⟨joiner, left, matched, pending, template, leftDone⟩ := s
  unfold turn at turned
  split at turned
  · rename_i row rest found
    cases turned
    rw [show pending = row :: rest from found]
    exact .right _ (Nat.lt_succ_self _)
  · exact absurd turned (by simp [JoinTurn.next?])
  · rename_i row rest _ reading found
    have shorter : rest.length + 1 < left.length + 1 := by rw [show left = _ from found]; simp
    split at turned <;> cases turned <;>
      exact .left _ _ (by simpa [unread, show leftDone = false from reading] using shorter)
  · rename_i e rest _ reading found
    have shorter : rest.length + 1 < left.length + 1 := by rw [show left = _ from found]; simp
    cases turned
    exact .left _ _ (by simpa [unread, show leftDone = false from reading] using shorter)
  · rename_i reading _
    cases turned
    exact .left _ _ (by simp [unread, show leftDone = false from reading])

/-- All items that a join under way still gives. -/
def drain (s : JoinStream) : List Item :=
  match _turned : s.turn with
  | .item item next => item :: next.drain
  | .more next => next.drain
  | .done => []
termination_by (s.unread, s.pending.length)
decreasing_by
  all_goals exact turn_decreases (by simp only [_turned, JoinTurn.next?])

end JoinStream

end RecordQuery
