namespace RecordQuery

/-- Regular expressions, as far as patterns of texts are made into them. -/
inductive Regex where
  /-- The empty text. -/
  | empty
  /-- The empty text at the beginning of the whole text. -/
  | start
  /-- The empty text at the end of the whole text. -/
  | stop
  /-- Any one character, a line feed only if line breaks are allowed. -/
  | any (lineBreaks : Bool)
  | char (c : Char)
  | concat (first second : Regex)
  /-- One expression any number of times. -/
  | star (inner : Regex)
  deriving DecidableEq, Repr

namespace Regex

/-- The characters that may mean something else than themselves. -/
def isMeta (c : Char) : Bool :=
  "\\.+*?()|[]\x7b\x7d^$#&-~".toList.contains c

/-- The notation of the expression that only a character itself matches. -/
def escapeChar (c : Char) : List Char :=
  if isMeta c then ['\\', c] else [c]

/-- The expressions of a list one behind the other, from the last one to the first one. -/
def ofReversed (parts : List Regex) : Regex :=
  parts.foldl (fun behind part => .concat part behind) .empty

/-- The parts of an expression with what one more character adds to them. The last part stands in
front. Alternatives, groups, classes and counts begin with characters that are not read here. -/
def addPart? (lineBreaks : Bool) (c : Char) (parts : List Regex) : Option (List Regex) :=
  if isMeta c then
    match c, parts with
    | '.', parts => some (.any lineBreaks :: parts)
    | '^', parts => some (.start :: parts)
    | '$', parts => some (.stop :: parts)
    | '*', part :: others => some (.star part :: others)
    | '#', parts | '&', parts | '-', parts | '~', parts | ']', parts | '\x7d', parts =>
      some (.char c :: parts)
    | _, _ => none
  else some (.char c :: parts)

/-- Reads an expression behind parts that have been read before. Behind a backslash stands a
character that only means itself. -/
def readParts (lineBreaks : Bool) (parts : List Regex) : List Char → Option Regex
  | [] => some (ofReversed parts)
  | '\\' :: c :: cs => if isMeta c then readParts lineBreaks (.char c :: parts) cs else none
  | c :: cs =>
    match addPart? lineBreaks c parts with
    | none => none
    | some parts => readParts lineBreaks parts cs

/-- Reads an expression. With the flag in front, a dot goes with line feeds too. -/
def ofChars? : List Char → Option Regex
  | '(' :: '?' :: 's' :: ')' :: cs => readParts true [] cs
  | cs => readParts false [] cs

/-- Whether an expression matches the empty text, at the beginning or at the end of the whole text
or elsewhere. -/
def matchesEmpty (atStart atStop : Bool) : Regex → Bool
  | .empty => true
  | .start => atStart
  | .stop => atStop
  | .any _ => false
  | .char _ => false
  | .concat first second => first.matchesEmpty atStart atStop && second.matchesEmpty atStart atStop
  | .star _ => true

/-- What may be left to match of an expression behind a first character. -/
def behind (atStart : Bool) (c : Char) : Regex → List Regex
  | .empty => []
  | .start => []
  | .stop => []
  | .any lineBreaks => if lineBreaks || c != '\n' then [.empty] else []
  | .char d => if c = d then [.empty] else []
  | .concat first second =>
    (first.behind atStart c).map (.concat · second) ++
      if first.matchesEmpty atStart false then second.behind atStart c else []
  | .star inner => (inner.behind atStart c).map (.concat · (.star inner))

/-- Whether an expression matches something in the rest of a text, or what is left of matches that
have begun before goes on here. -/
def searchFrom (r : Regex) (atStart : Bool) (begun : List Regex) : List Char → Bool
  | [] => (r :: begun).any (matchesEmpty atStart true)
  | c :: cs =>
    (r :: begun).any (matchesEmpty atStart false) ||
      searchFrom r false ((r :: begun).flatMap (behind atStart c)).eraseDups cs

/-- Whether an expression matches anything in a text. -/
def isMatch (r : Regex) (text : List Char) : Bool :=
  r.searchFrom true [] text

end Regex

end RecordQuery
