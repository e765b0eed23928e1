import RecordQuery.Error
import RecordQuery.Record

namespace RecordQuery

/-- A step into a value: into the field or the item of a key, or into every item of an array. -/
inductive Segment where
  | key (name : String)
  | each
  deriving DecidableEq, Repr

/-- Whether a missing field is an error or null. -/
inductive Strictness where
  | strict
  | lenient
  deriving DecidableEq, Repr

/-- A way into a record, with the text it was written as. -/
structure FieldPath where
  text : String
  segments : List Segment
  deriving DecidableEq, Repr

namespace FieldPath

def isBacktick (c : Char) : Bool :=
  c == '\x60'

/-- Whether a character ends a bare name. -/
def endsName (c : Char) : Bool :=
  c == '.' || c == '['

/-- Reads the name at the front. Between backticks it may be any text without one, and bare it
reaches to the next point or bracket. There is no name where a bare one would be empty. -/
def readName (cs : List Char) : Option (Option String × List Char) :=
  match cs with
  | [] => some (none, [])
  | c :: rest =>
    if isBacktick c then
      match rest.dropWhile (fun d => !isBacktick d) with
      | [] => none
      | _ :: after => some (some (String.ofList (rest.takeWhile fun d => !isBacktick d)), after)
    else if endsName c then some (none, c :: rest)
    else some (some (String.ofList ((c :: rest).takeWhile fun d => !endsName d)),
      (c :: rest).dropWhile fun d => !endsName d)

theorem readName_length_le {cs rest : List Char} {name : Option String}
    (read : readName cs = some (name, rest)) : rest.length ≤ cs.length := by
  unfold readName at read
  split at read
  · simp_all
  · rename_i c tail
    split at read
    · split at read
      · exact absurd read (by simp)
      · rename_i d after found
        have bound := (List.dropWhile_sublist (l := tail) fun d => !isBacktick d).length_le
        simp only [Option.some.injEq, Prod.mk.injEq] at read
        rw [← read.2]
        rw [found] at bound
        simp only [List.length_cons] at bound ⊢
        omega
    · split at read
      · simp only [Option.some.injEq, Prod.mk.injEq] at read
        exact Nat.le_of_eq (by rw [← read.2])
      · simp only [Option.some.injEq, Prod.mk.injEq] at read
        rw [← read.2]
        exact (List.dropWhile_sublist _).length_le

/-- The segment of a name, if there is one. -/
def nameSegments : Option String → List Segment
  | some text => [.key text]
  | none => []

/-- Reads components separated by points. Only the first component has to have a name. A mark of
iteration stands right behind the name or alone. -/
def readSegments (first : Bool) (cs : List Char) : Option (List Segment) :=
  match _named : readName cs with
  | none => none
  | some (name, '[' :: ']' :: '.' :: after) =>
    if first && name.isNone then none
    else (readSegments false after).map fun tail => nameSegments name ++ .each :: tail
  | some (name, ['[', ']']) =>
    if first && name.isNone then none else some (nameSegments name ++ [.each])
  | some (name, '.' :: after) =>
    if name.isNone then none
    else (readSegments false after).map fun tail => nameSegments name ++ tail
  | some (name, []) => if name.isNone then none else some (nameSegments name)
  | some (_, _ :: _) => none
termination_by cs.length
decreasing_by
  all_goals
    have bound := readName_length_le (by assumption)
    simp only [List.length_cons] at bound
    omega

/-- Reads a path. -/
def ofText? (text : String) : Option FieldPath :=
  (readSegments true text.toList).map fun segments => ⟨text, segments⟩

def ofText (text : String) : Except ValueError FieldPath :=
  match ofText? text with
  | some path => .ok path
  | none => .error (.invalidPath text)

/-- A path as it is read where a query is made. -/
def forQuery (text : String) : Except BuildFault FieldPath :=
  match ofText? text with
  | some path => .ok path
  | none => .error (.invalidPath text)

def hasEach (path : FieldPath) : Bool :=
  path.segments.any (· == .each)

/-- The number of an item that a key names: digits, with a plus sign allowed. -/
def itemIndex? (key : String) : Option Nat :=
  match key.toList with
  | '+' :: digits => if Decimal.isNatural digits then some (Decimal.valueOf digits) else none
  | digits => if Decimal.isNatural digits then some (Decimal.valueOf digits) else none

/-- The field of a record or the item of an array. -/
def child? (key : String) : Value → Option Value
  | .record fields => fields.lookup key
  | .array items => (itemIndex? key).bind fun i => items[i]?
  | _ => none

/-- What stands for a field that is not there. -/
def missing (path : FieldPath) : Strictness → Except ValueError Value
  | .strict => .error (.missingField path.text)
  | .lenient => .ok .null

/-- Follows segments from a value on. A mark of iteration collects what the rest of the segments
gives for every item. -/
def walk (path : FieldPath) (mode : Strictness) : List Segment → Value → Except ValueError Value
  | [], v => .ok v
  | .key name :: rest, v =>
    match child? name v with
    | some w => walk path mode rest w
    | none => path.missing mode
  | .each :: rest, .array items => (items.mapM (walk path mode rest)).map Value.array
  | .each :: _, _ => path.missing mode

/-- The value that a path leads to in a record. -/
def resolve (path : FieldPath) (r : Record) (mode : Strictness) : Except ValueError Value :=
  path.walk mode path.segments (Value.ofRecord r)

end FieldPath

namespace Record

/-- The value at a path. A field whose key is the text of the path goes first. -/
def lookupPath (r : Record) (path : FieldPath) (mode : Strictness) : Except ValueError Value :=
  match r.get? path.text with
  | some v => .ok v
  | none => path.resolve r mode

/-- The value at the path that a text denotes. A field whose key is the text goes first, and then
the text need not be a path at all. -/
def lookup (r : Record) (text : String) (mode : Strictness) : Except ValueError Value :=
  match r.get? text with
  | some v => .ok v
  | none => do
    let path ← FieldPath.ofText text
    path.resolve r mode

end Record

end RecordQuery
