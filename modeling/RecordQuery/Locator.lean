import RecordQuery.Text.Blank

namespace RecordQuery

/-- Where records come from: a format, the name of a file or dataset, and a path to follow inside
of it. -/
structure Locator where
  format : Option String
  path : Option String
  query : Option String
  deriving DecidableEq, Repr

namespace Locator

/-- The whole of the default source. -/
def all : Locator :=
  ⟨none, none, none⟩

def isAll (l : Locator) : Bool :=
  l.format.isNone && l.path.isNone && l.query.isNone

/-- A text without the blanks around it, if anything is left of it. -/
def someText (cs : List Char) : Option String :=
  let trimmed := Text.trimChars cs
  if trimmed.isEmpty then none else some (String.ofList trimmed)

/-- Reads what stands between an opening character at the front and the next closing one, and what
follows it. Without both of them there is nothing, and all of the text follows. -/
def readBetween (opening closing : Char) (cs : List Char) : Option String × List Char :=
  match cs with
  | [] => (none, [])
  | c :: rest =>
    if c = opening then
      match rest.dropWhile fun d => d != closing with
      | [] => (none, c :: rest)
      | _ :: after => (someText (rest.takeWhile fun d => d != closing), after)
    else (none, c :: rest)

/-- Reads a locator. A point before the path to follow does not belong to it. -/
def ofText (text : String) : Locator :=
  let cs := Text.trimChars text.toList
  if cs = [] ∨ cs = ['*'] then all
  else
    let (format, rest) := readBetween '[' ']' cs
    let (path, rest) := readBetween '(' ')' rest
    let query := match rest with
      | '.' :: after => after
      | _ => rest
    ⟨format, path, someText query⟩

/-- The notation of a locator in queries. Brackets come before the name in parentheses, also empty
ones. -/
def displayChars (l : Locator) : List Char :=
  if l.isAll then ['*']
  else
    let bracketed := l.format.isSome || l.path.isSome
    let place :=
      if bracketed then
        '[' :: (l.format.getD "").toList ++ ']' ::
          match l.path with
          | some path => '(' :: path.toList ++ [')']
          | none => []
      else []
    match l.query with
    | some query => place ++ (if bracketed then '.' :: query.toList else query.toList)
    | none => place

def display (l : Locator) : String :=
  String.ofList l.displayChars

end Locator

end RecordQuery
