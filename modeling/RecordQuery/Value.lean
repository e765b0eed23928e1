import RecordQuery.Decimal.Layout
import RecordQuery.Number

namespace RecordQuery

/-- The values that records hold. The fields of a record value are listed in the order in which
they were first inserted. -/
inductive Value where
  | null
  | bool (b : Bool)
  | int (n : Int64)
  | float (x : Float)
  | text (s : String)
  | array (items : List Value)
  | record (fields : List (String × Value))
  deriving Inhabited

/-- A row of a source or a result: fields in the order in which they were first inserted. -/
structure Record where
  fields : List (String × Value)
  deriving Inhabited

namespace Value

def ofRecord (r : Record) : Value :=
  .record r.fields

def ofNumber : Number → Value
  | .int n => .int n
  | .float x => .float x

/-- The value of a count. One that is too large for an integer becomes a double. -/
def ofNat (n : Nat) : Value :=
  match int64? n with
  | some i => .int i
  | none => .float (Float.ofNat n)

def typeName : Value → String
  | .null => "null"
  | .bool _ => "boolean"
  | .int _ => "int"
  | .float _ => "float"
  | .text _ => "string"
  | .array _ => "array"
  | .record _ => "object"

def isNull : Value → Bool
  | .null => true
  | _ => false

/-- Null, false, zero, the empty text, the text of one zero and the empty array are false. -/
def truthy : Value → Bool
  | .null => false
  | .bool b => b
  | .int n => n != 0
  | .float x => x != 0.0
  | .text s => s != "" && s != "0"
  | .array items => !items.isEmpty
  | .record _ => true

/-- The number that a value is or that its text denotes. -/
def number? : Value → Option Number
  | .int n => some (.int n)
  | .float x => some (.float x)
  | .text s => Number.ofText? s
  | _ => none

def escapeQuoted : List Char → List Char
  | [] => []
  | c :: rest =>
    if c = '"' ∨ c = '\\' then '\\' :: c :: escapeQuoted rest else c :: escapeQuoted rest

/-- A text between double quotes, with a backslash before every double quote and backslash. -/
def quoted (s : String) : List Char :=
  '"' :: escapeQuoted s.toList ++ ['"']

mutual

/-- The notation of a value in queries, plans and messages. -/
def displayChars : Value → List Char
  | .null => "null".toList
  | .bool true => "true".toList
  | .bool false => "false".toList
  | .int n => Decimal.integerChars n.toInt
  | .float x => Double.displayChars x
  | .text s => quoted s
  | .array items => '[' :: displayItems items ++ [']']
  | .record fields => '\x7b' :: displayFields fields ++ ['\x7d']

/-- Displayed values, separated by commas. -/
def displayItems : List Value → List Char
  | [] => []
  | [v] => displayChars v
  | v :: w :: rest => displayChars v ++ ',' :: ' ' :: displayItems (w :: rest)

/-- Displayed fields. The keys stand between quotes as they are. -/
def displayFields : List (String × Value) → List Char
  | [] => []
  | [(k, v)] => '"' :: k.toList ++ '"' :: ':' :: ' ' :: displayChars v
  | (k, v) :: field :: rest =>
    '"' :: k.toList ++ '"' :: ':' :: ' ' :: displayChars v ++
      ',' :: ' ' :: displayFields (field :: rest)

end

def display (v : Value) : String :=
  String.ofList (displayChars v)

/-- The bare text of a value: a text itself, nothing for null, and the notation of all others. -/
def toText : Value → String
  | .text s => s
  | .null => ""
  | v => v.display

end Value

end RecordQuery
