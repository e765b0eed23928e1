import RecordQuery.Ambient
import RecordQuery.Query
import RecordQuery.Rows

namespace RecordQuery

/-- Puts an element into a sorted list that is kept reversed: behind all that do not come after
it. -/
def insertBehind (order : α → α → Ordering) (a : α) : List α → List α
  | [] => [a]
  | b :: rest => if order a b = .lt then b :: insertBehind order a rest else a :: b :: rest

/-- Sorts by inserting one element after the other. Elements of the same rank keep their order. -/
def stableSort (order : α → α → Ordering) (as : List α) : List α :=
  (as.foldl (fun sorted a => insertBehind order a sorted) []).reverse

/-- The order of two values in a direction. Shuffled values are all of the same rank. -/
def Direction.order : Direction → Value → Value → Ordering
  | .asc, a, b => a.sortOrder b
  | .desc, a, b => b.sortOrder a
  | .natural, a, b => a.naturalOrder b
  | .shuffle, _, _ => .eq

namespace Rows

/-- The order of rows by the values of their keys: the first key that tells them apart. -/
def keysOrder : List OrderKey → List Value → List Value → Ordering
  | key :: keys, a :: as, b :: bs =>
    match key.direction.order a b with
    | .eq => keysOrder keys as bs
    | other => other
  | _, _, _ => .eq

/-- A row with the values of its keys. A field that is not there counts as null. -/
def keyed (keys : List OrderKey) (r : Record) : Except QueryError (List Value × Record) := do
  let values ← keys.mapM fun key => (r.lookupPath key.field .lenient).mapError .ofValue
  pure (values, r)

def keyedAll (keys : List OrderKey) : List Item → Except QueryError (List (List Value × Record))
  | [] => .ok []
  | .error e :: _ => .error e
  | .ok r :: rest =>
    match keyed keys r with
    | .error e => .error e
    | .ok row => (keyedAll keys rest).map (row :: ·)

/-- Shuffles rows with the values of their keys if one of the keys asks for that. -/
def shuffled (shuffle : Shuffle) (keys : List OrderKey) (rows : List (List Value × Record)) :
    List (List Value × Record) :=
  if keys.any fun key => key.direction = .shuffle then shuffle.apply (rows.map Prod.snd) rows
  else rows

theorem shuffled_perm (shuffle : Shuffle) (keys : List OrderKey)
    (rows : List (List Value × Record)) : (shuffled shuffle keys rows).Perm rows := by
  unfold shuffled
  split
  · exact shuffle.apply_perm (List.length_map _).symm
  · exact .refl rows

/-- Sorts rows by several keys. Rows that tie stay as they are or as they have been shuffled. -/
def sort (shuffle : Shuffle) (keys : List OrderKey) (items : List Item) :
    Except QueryError (List Record) := do
  let rows ← keyedAll keys items
  pure ((stableSort (fun a b => keysOrder keys a.1 b.1) (shuffled shuffle keys rows)).map Prod.snd)

end Rows

end RecordQuery
