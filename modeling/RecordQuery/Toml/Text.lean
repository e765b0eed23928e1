import RecordQuery.Text.Hexadecimal

namespace RecordQuery.Toml

/-- What a text stands between: double quotes, where backslashes escape, or single quotes, where
everything stands for itself. Between three quotes it may go over many lines. -/
inductive Quoting where
  | escaped
  | literal
  | longEscaped
  | longLiteral
  deriving DecidableEq, Repr

/-- The length of the longest run of a character, where one of `run` characters goes on. -/
def longestRun (c : Char) (run : Nat) : List Char → Nat
  | [] => run
  | d :: rest => if d = c then longestRun c (run + 1) rest else max run (longestRun c 0 rest)

/-- Whether a character is a control character that stands for itself in no text. -/
def needsCode (c : Char) : Bool :=
  (c.toNat < 0x20 && c != '\t' && c != '\n') || c.toNat == 0x7F

/-- How a text is quoted. Escapes are avoided as far as possible, and among the ways without them
the one with the least and the plainest quotes is taken. -/
def quoting (cs : List Char) : Quoting :=
  let coded := cs.any needsCode
  let slashed := cs.contains '\\'
  let long := cs.contains '\n'
  let quotes := longestRun '"' 0 cs
  let apostrophes := longestRun '\'' 0 cs
  if !coded && !slashed && !long && quotes == 0 then .escaped
  else if !coded && !long && apostrophes == 0 then .literal
  else if !coded && !slashed && quotes ≤ 2 then .longEscaped
  else if !coded && apostrophes ≤ 2 then .longLiteral
  else if long then .longEscaped
  else .escaped

/-- The four digits of a control character, in upper case. -/
def codeChars (c : Char) : List Char :=
  (Text.hexDigits 4 c.toNat).map Char.toUpper

/-- A character between double quotes that is none of them. Line breaks stand for themselves in a
text of many lines. -/
def escapedChar (long : Bool) (c : Char) : List Char :=
  match c with
  | '\x08' => ['\\', 'b']
  | '\t' => ['\\', 't']
  | '\n' => if long then ['\n'] else ['\\', 'n']
  | '\x0c' => ['\\', 'f']
  | '\r' => ['\\', 'r']
  | '\\' => ['\\', '\\']
  | _ => if c.toNat < 0x20 ∨ c.toNat = 0x7F then '\\' :: 'u' :: codeChars c else [c]

/-- The characters of a text between double quotes, behind `run` quotes that stand for themselves.
In a text of many lines up to two quotes in a row do so, and in others none. -/
def escapedChars (long : Bool) (run : Nat) : List Char → List Char
  | [] => []
  | c :: rest =>
    if c = '"' then
      if run < (if long then 2 else 0) then '"' :: escapedChars long (run + 1) rest
      else '\\' :: '"' :: escapedChars long 0 rest
    else escapedChar long c ++ escapedChars long 0 rest

/-- The notation of a text. One with line breaks begins on a line of its own. -/
def textChars (cs : List Char) : List Char :=
  let start := if cs.contains '\n' then ['\n'] else []
  match quoting cs with
  | .escaped => '"' :: escapedChars false 0 cs ++ ['"']
  | .literal => '\'' :: cs ++ ['\'']
  | .longEscaped => "\"\"\"".toList ++ start ++ escapedChars true 0 cs ++ "\"\"\"".toList
  | .longLiteral => "'''".toList ++ start ++ cs ++ "'''".toList

end RecordQuery.Toml
