import RecordQuery.Calendar.Date
import RecordQuery.Digest.Sha256
import RecordQuery.Record

namespace RecordQuery

/-- A way to shuffle rows: the places that the rows are taken from, one after the other. -/
structure Shuffle where
  places : List Record → List Nat
  perm : ∀ rows, (places rows).Perm (List.range rows.length)

namespace Shuffle

/-- Leaves all rows where they are. -/
def inPlace : Shuffle :=
  ⟨fun rows => List.range rows.length, fun _ => .refl _⟩

/-- Takes something that is kept for each of some rows along with them. -/
def apply (s : Shuffle) (rows : List Record) (kept : List α) : List α :=
  (s.places rows).filterMap fun i => kept[i]?

theorem filterMap_range (kept : List α) :
    (List.range kept.length).filterMap (fun i => kept[i]?) = kept := by
  induction kept with
  | nil => rfl
  | cons a rest ih =>
    rw [List.length_cons, List.range_succ_eq_map, List.filterMap_cons, List.filterMap_map]
    exact congrArg (a :: ·) ih

/-- Nothing is lost and nothing is added. -/
theorem apply_perm (s : Shuffle) {rows : List Record} {kept : List α}
    (same : kept.length = rows.length) : (s.apply rows kept).Perm kept := by
  have moved := (s.perm rows).filterMap fun i => kept[i]?
  rwa [← same, filterMap_range] at moved

/-- The places of some rows in the order of digests of a text and their numbers. -/
def digestPlaces (text : String) (count : Nat) : List Nat :=
  let drawn := (List.range count).map fun i => (Digest.Sha256.ofText (text ++ " " ++ toString i), i)
  (drawn.mergeSort fun a b => decide (a.1 ≤ b.1)).map Prod.snd

theorem digestPlaces_perm (text : String) (count : Nat) :
    (digestPlaces text count).Perm (List.range count) := by
  have sorted := (List.mergeSort_perm ((List.range count).map fun i =>
    (Digest.Sha256.ofText (text ++ " " ++ toString i), i)) fun a b => decide (a.1 ≤ b.1)).map
      Prod.snd
  rwa [List.map_map, show Prod.snd ∘ _ = id from rfl, List.map_id] at sorted

/-- The shuffle that is drawn from a text. It only looks at how many rows there are. -/
def ofText (text : String) : Shuffle :=
  ⟨fun rows => digestPlaces text rows.length, fun rows => digestPlaces_perm text rows.length⟩

end Shuffle

/-- What is drawn at random: identifiers, each for a text that tells its place from other places,
and shuffles, each for a seed if there is one. -/
structure Draws where
  identifier : String → String
  shuffle : Option Nat → Shuffle

namespace Draws

/-- A random identifier in its usual notation. It has the mark of its version and variant, and the
digest of a text in its other bits. -/
def identifierOf (text : String) : String :=
  let digits := (Digest.Sha256.ofText text).toList
  String.ofList <|
    digits.take 8 ++ '-' :: (digits.drop 8).take 4 ++ '-' :: '4' :: (digits.drop 13).take 3 ++
      '-' :: 'a' :: (digits.drop 17).take 3 ++ '-' :: (digits.drop 20).take 12

/-- What is drawn in a run that has a text of its own. A shuffle with a seed is the same in all
runs. -/
def ofText (text : String) : Draws where
  identifier place := identifierOf (text ++ place)
  shuffle
    | some seed => .ofText (toString seed)
    | none => .ofText text

/-- A text stands for what is drawn from it. -/
instance : Coe String Draws :=
  ⟨ofText⟩

end Draws

/-- What functions and orders may see of the world outside the rows: the present moment, and what is
drawn at random. -/
structure Ambient where
  now : Calendar.Moment
  draws : Draws

end RecordQuery
