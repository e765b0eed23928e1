import RecordQuery.Call.Aggregate
import RecordQuery.Rows.Ordering

namespace RecordQuery

/-- A choice of rows by their numbers, which begin at zero. -/
inductive RowChoice where
  | every (step : Nat)
  | even
  | odd
  deriving DecidableEq, Repr

namespace RowChoice

/-- The number of the first row that is chosen, and the distance to the next one. -/
def stride : RowChoice → Except QueryError (Nat × Nat)
  | .every 0 => .error .zeroStep
  | .every (n + 1) => .ok (0, n + 1)
  | .even => .ok (0, 2)
  | .odd => .ok (1, 2)

/-- The rows that are chosen. -/
def pick (choice : RowChoice) (rows : List Record) : Except QueryError (List Record) := do
  let (start, step) ← choice.stride
  pure ((rows.zipIdx.filter fun (_, i) => start ≤ i && (i - start) % step == 0).map Prod.fst)

end RowChoice

/-- The result of a query that is read once, from the first item on. -/
structure StreamResult where
  items : List Item

/-- The result of a query with all of its rows at hand. -/
structure FrozenResult where
  rows : List Record

namespace Rows

/-- Gathers items, up to the first error among them or in the gathering. -/
def gather (a : Accumulator) : List Item → Except QueryError Accumulator
  | [] => .ok a
  | .error e :: _ => .error e
  | .ok r :: rest =>
    match a.add r with
    | .error e => .error e
    | .ok next => gather next rest

/-- The aggregate of a field over items. -/
def reduce (kind : FunctionKind) (field : String) (items : List Item) :
    Except QueryError Value := do
  let path ← (FieldPath.forQuery field).mapError .build
  let call ← (Call.make kind [.field path]).mapError .build
  let gathered ← gather (.start call) items
  pure gathered.result

end Rows

namespace StreamResult

/-- The next item, and what is left behind it. -/
def next (s : StreamResult) : Option Item × StreamResult :=
  match s.items with
  | [] => (none, s)
  | item :: rest => (some item, ⟨rest⟩)

/-- So many rows, or all of them. -/
def fetchAll (s : StreamResult) (limit : Option Nat) : Except QueryError (List Record) :=
  match limit with
  | some n => Rows.collect (s.items.take n)
  | none => Rows.collect s.items

def fetchOne (s : StreamResult) : Except QueryError (Option Record) :=
  match s.items with
  | [] => .ok none
  | item :: _ => item.map some

def fetchNth (s : StreamResult) (choice : RowChoice) : Except QueryError (List Record) := do
  let _ ← choice.stride
  let rows ← Rows.collect s.items
  choice.pick rows

def exists? (s : StreamResult) : Except QueryError Bool :=
  s.fetchOne.map Option.isSome

def count (s : StreamResult) : Except QueryError Nat :=
  (Rows.collect s.items).map List.length

def reduce (s : StreamResult) (kind : FunctionKind) (field : String) : Except QueryError Value :=
  Rows.reduce kind field s.items

/-- Reads all that is left. -/
def freeze (s : StreamResult) : Except QueryError FrozenResult :=
  (Rows.collect s.items).map FrozenResult.mk

end StreamResult

namespace FrozenResult

def fetchAll (f : FrozenResult) (limit : Option Nat) : List Record :=
  match limit with
  | some n => f.rows.take n
  | none => f.rows

def fetchOne (f : FrozenResult) : Option Record :=
  f.rows.head?

def fetchNth (f : FrozenResult) (choice : RowChoice) : Except QueryError (List Record) :=
  choice.pick f.rows

def exists? (f : FrozenResult) : Bool :=
  !f.rows.isEmpty

def count (f : FrozenResult) : Nat :=
  f.rows.length

def reduce (f : FrozenResult) (kind : FunctionKind) (field : String) : Except QueryError Value :=
  Rows.reduce kind field (f.rows.map .ok)

/-- The rows in the order of a field, or in the order that has been drawn for them. -/
def sorted (f : FrozenResult) (field : String) (direction : Direction)
    (shuffle : Shuffle := .inPlace) : Except QueryError FrozenResult := do
  let path ← (FieldPath.forQuery field).mapError .build
  let keyed ← f.rows.mapM fun r =>
    match r.lookupPath path .lenient with
    | .ok v => .ok (v, r)
    | .error e => .error (.ofValue e)
  let ordered :=
    if direction = .shuffle then shuffle.apply f.rows keyed
    else stableSort (fun a b => direction.order a.1 b.1) keyed
  pure ⟨ordered.map Prod.snd⟩

end FrozenResult

/-- What a query gives: rows at hand where they had to be held in memory anyway, and else a
stream. -/
inductive Results where
  | stream (s : StreamResult)
  | frozen (f : FrozenResult)

namespace Results

def isFrozen : Results → Bool
  | .stream _ => false
  | .frozen _ => true

def items : Results → List Item
  | .stream s => s.items
  | .frozen f => f.rows.map .ok

def fetchAll (limit : Option Nat) : Results → Except QueryError (List Record)
  | .stream s => s.fetchAll limit
  | .frozen f => .ok (f.fetchAll limit)

def fetchOne : Results → Except QueryError (Option Record)
  | .stream s => s.fetchOne
  | .frozen f => .ok f.fetchOne

def fetchNth (choice : RowChoice) : Results → Except QueryError (List Record)
  | .stream s => s.fetchNth choice
  | .frozen f => f.fetchNth choice

def exists? : Results → Except QueryError Bool
  | .stream s => s.exists?
  | .frozen f => .ok f.exists?

def count : Results → Except QueryError Nat
  | .stream s => s.count
  | .frozen f => .ok f.count

def reduce (kind : FunctionKind) (field : String) : Results → Except QueryError Value
  | .stream s => s.reduce kind field
  | .frozen f => f.reduce kind field

def freeze : Results → Except QueryError FrozenResult
  | .stream s => s.freeze
  | .frozen f => .ok f

end Results

end RecordQuery
