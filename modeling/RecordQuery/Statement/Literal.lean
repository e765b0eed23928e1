import RecordQuery.Text.Case
import RecordQuery.Value

namespace RecordQuery.Literal

/-- Takes the backslash from quotes and backslashes. In front of all else it stands for itself. -/
def unescape : List Char → List Char
  | [] => []
  | '\\' :: c :: rest =>
    if c = '"' ∨ c = '\'' ∨ c = '\\' then c :: unescape rest else '\\' :: c :: unescape rest
  | c :: rest => c :: unescape rest

/-- What stands between a quote at the front and the same quote at the end. -/
def withoutQuotes : List Char → List Char
  | [] => []
  | c :: rest =>
    if c = '"' ∨ c = '\'' then
      if rest.getLast? = some c then rest.dropLast else rest
    else c :: rest

/-- The text that a quoted one stands for. -/
def unquote (text : String) : String :=
  String.ofList (unescape (withoutQuotes text.toList))

/-- The value that an unquoted text stands for: a word for null or a truth, a number, or else the
text itself. -/
def ofUnquoted (text : String) : Value :=
  let word := Text.lowerAscii text
  if word = "null" then .null
  else if word = "true" then .bool true
  else if word = "false" then .bool false
  else if Text.trim text = text then
    match Number.ofText? text with
    | some n => .ofNumber n
    | none => .text text
  else .text text

end RecordQuery.Literal
