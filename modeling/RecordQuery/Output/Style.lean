import RecordQuery.Text.Pieces

namespace RecordQuery.Output

/-- How a text looks on a terminal. -/
inductive Style where
  | dimmed
  | key
  | heading
  | alarm
  deriving DecidableEq, Repr

/-- The sequence that turns a style on. -/
def Style.begin : Style → List Char
  | .dimmed => "\x1b[2m".toList
  | .key => "\x1b[36m".toList
  | .heading => "\x1b[1;36m".toList
  | .alarm => "\x1b[1;31m".toList

/-- The sequence that turns all styles off. -/
def reset : List Char :=
  "\x1b[0m".toList

/-- A text in a style, if there is any color. Where a style ends inside of the text, this one begins
anew. -/
def styled (color : Bool) (style : Style) (cs : List Char) : List Char :=
  if color then style.begin ++ Text.replaceChars reset (reset ++ style.begin) cs ++ reset else cs

end RecordQuery.Output
