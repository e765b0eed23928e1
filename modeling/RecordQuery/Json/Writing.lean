import RecordQuery.Record
import RecordQuery.Text.Hexadecimal

namespace RecordQuery.Json

/-- A character as it stands in a text: the quote, the backslash and the control characters are
escaped. -/
def escapeChar (c : Char) : List Char :=
  if c = '"' then ['\\', '"']
  else if c = '\\' then ['\\', '\\']
  else if c = '\n' then ['\\', 'n']
  else if c = '\r' then ['\\', 'r']
  else if c = '\t' then ['\\', 't']
  else if c = '\x08' then ['\\', 'b']
  else if c = '\x0c' then ['\\', 'f']
  else if c.toNat < 0x20 then '\\' :: 'u' :: Text.hexDigits 4 c.toNat
  else [c]

def textChars (s : String) : List Char :=
  '"' :: s.toList.flatMap escapeChar ++ ['"']

/-- The notation of a value that is not a container. -/
def scalarChars : Value → List Char
  | .null => "null".toList
  | .bool true => "true".toList
  | .bool false => "false".toList
  | .int n => Decimal.integerChars n.toInt
  | .float x => Double.jsonChars x
  | .text s => textChars s
  | _ => []

mutual

/-- JSON without blanks. -/
def compactChars : Value → List Char
  | .array items => '[' :: compactItems items ++ [']']
  | .record fields => '\x7b' :: compactFields fields ++ ['\x7d']
  | v => scalarChars v

def compactItems : List Value → List Char
  | [] => []
  | [v] => compactChars v
  | v :: w :: rest => compactChars v ++ ',' :: compactItems (w :: rest)

def compactFields : List (String × Value) → List Char
  | [] => []
  | [(k, v)] => textChars k ++ ':' :: compactChars v
  | (k, v) :: field :: rest =>
    textChars k ++ ':' :: compactChars v ++ ',' :: compactFields (field :: rest)

end

/-- A new line, indented by two blanks for every open container. -/
def newline (depth : Nat) : List Char :=
  '\n' :: List.replicate (2 * depth) ' '

mutual

/-- JSON with every item and every field on a line of its own. -/
def prettyChars (depth : Nat) : Value → List Char
  | .array [] => ['[', ']']
  | .array (v :: rest) =>
    '[' :: prettyItems (depth + 1) (v :: rest) ++ newline depth ++ [']']
  | .record [] => ['\x7b', '\x7d']
  | .record (field :: rest) =>
    '\x7b' :: prettyFields (depth + 1) (field :: rest) ++ newline depth ++ ['\x7d']
  | v => scalarChars v

def prettyItems (depth : Nat) : List Value → List Char
  | [] => []
  | [v] => newline depth ++ prettyChars depth v
  | v :: w :: rest =>
    newline depth ++ prettyChars depth v ++ ',' :: prettyItems depth (w :: rest)

def prettyFields (depth : Nat) : List (String × Value) → List Char
  | [] => []
  | [(k, v)] => newline depth ++ textChars k ++ ':' :: ' ' :: prettyChars depth v
  | (k, v) :: field :: rest =>
    newline depth ++ textChars k ++ ':' :: ' ' :: prettyChars depth v ++
      ',' :: prettyFields depth (field :: rest)

end

def write (v : Value) : String :=
  String.ofList (compactChars v)

def writePretty (v : Value) : String :=
  String.ofList (prettyChars 0 v)

mutual

/-- The value that reading the JSON of a value gives back when the text keeps its doubles: one that
is not finite is written as null. -/
def written : Value → Value
  | .float x => if Double.isFinite x then .float x else .null
  | .array items => .array (writtenItems items)
  | .record fields => .record (writtenFields fields)
  | v => v

def writtenItems : List Value → List Value
  | [] => []
  | v :: rest => written v :: writtenItems rest

def writtenFields : List (String × Value) → List (String × Value)
  | [] => []
  | (k, v) :: rest => (k, written v) :: writtenFields rest

end

end RecordQuery.Json

namespace RecordQuery.Record

def toJson (r : Record) : String :=
  Json.write (Value.ofRecord r)

def toJsonPretty (r : Record) : String :=
  Json.writePretty (Value.ofRecord r)

end RecordQuery.Record
