import RecordQuery.Json.Reading
import RecordQuery.Source
import RecordQuery.Text.Case
import RecordQuery.Text.Pieces

namespace RecordQuery

/-- The contents of files, by their paths from the directory that the program runs in. -/
abbrev FileContents := List (String × ByteArray)

/-- The names that a path is made of. The directory itself is not one of them. -/
def pathNames (path : String) : List (List Char) :=
  (Text.splitChars ['/'] path.toList).filter fun name => !name.isEmpty && name != ['.']

/-- Whether a path begins at the directory that the program runs in. -/
def isRelative (path : String) : Bool :=
  match path.toList with
  | '/' :: _ => false
  | _ => true

/-- Whether a path ends with a name. One that ends with a slash or a point leads to a directory. -/
def endsWithName (path : String) : Bool :=
  match (Text.splitChars ['/'] path.toList).getLast? with
  | some [] => false
  | some ['.'] => false
  | _ => true

/-- Whether two paths lead to the same place. -/
def isSamePath (a b : String) : Bool :=
  pathNames a == pathNames b && isRelative a == isRelative b

/-- The contents of the file at a path: those that it was given last. -/
def FileContents.at? (files : FileContents) (path : String) : Option ByteArray :=
  if endsWithName path then
    ((files.filter fun file => isSamePath file.1 path).getLast?).map Prod.snd
  else none

/-- The text of the file at a path. -/
def FileContents.read (files : FileContents) (path : String) : Except ReadFault String :=
  match files.at? path with
  | none => .error .absent
  | some contents =>
    match String.fromUTF8? contents with
    | none => .error .notText
    | some text => .ok text

/-- What stands behind the last point in the last name of a path, unless the name begins with that
point. -/
def extension? (path : String) : Option String :=
  match (pathNames path).getLast? with
  | none => none
  | some name =>
    if name = ['.', '.'] then none
    else
      match name.reverse.dropWhile fun c => c != '.' with
      | _ :: _ :: _ =>
        some (String.ofList (name.reverse.takeWhile fun c => c != '.').reverse)
      | _ => none

/-- Files with JSON texts: one that is read without a name, and all files by their paths. -/
structure FileSource where
  standard : Option String
  files : FileContents

namespace FileSource

/-- The lines of a file with the bytes that end them taken away. The line being read is kept
reversed. -/
def linesFrom (line : List UInt8) : List UInt8 → List (List UInt8)
  | [] => if line.isEmpty then [] else [line.reverse]
  | b :: rest =>
    if b = 10 then
      (match line with
        | 13 :: before => before.reverse
        | _ => line.reverse) :: linesFrom [] rest
    else linesFrom (b :: line) rest

def readJson (text : String) : Except QueryError Value :=
  match Json.read? text with
  | some v => .ok v
  | none => .error (Source.fault .malformed)

/-- The items of a JSON text, from where the query leads to. -/
def itemsOf (query : Option String) (text : String) : Except QueryError (List Item) := do
  let v ← readJson text
  let found ← Source.follow query v
  Source.rowsOf found

/-- The items of one line. Blank lines have none, and a line that cannot be read leaves its
error. -/
def lineItems (query : Option String) (line : List UInt8) : List Item :=
  match String.fromUTF8? ⟨line.toArray⟩ with
  | none => [.error (Source.fault (.unreadable .notText))]
  | some text =>
    if (Text.trimChars text.toList).isEmpty then []
    else
      match itemsOf query text with
      | .ok items => items
      | .error e => [.error e]

/-- The path and the format that a locator stands for. A format that is not given is the extension
of the file, and without one it is JSON. -/
def resolve (f : FileSource) (locator : Locator) : Except QueryError (String × String) :=
  match locator.path.or f.standard with
  | none => .error (Source.fault .noFile)
  | some path =>
    .ok (path, Text.lowerAscii ((locator.format.or (extension? path)).getD "json"))

def records (f : FileSource) (locator : Locator) : Except QueryError (List Item) := do
  let (path, format) ← f.resolve locator
  if format = "json" then
    match f.files.read path with
    | .error fault => throw (Source.fault (.unreadable fault))
    | .ok text => itemsOf locator.query text
  else if format = "ndjson" ∨ format = "jsonl" then
    match f.files.at? path with
    | none => throw (Source.fault (.unreadable .absent))
    | some contents => pure ((linesFrom [] contents.toList).flatMap (lineItems locator.query))
  else throw (Source.fault (.unsupportedFormat format))

def describe (f : FileSource) : String :=
  match f.standard with
  | some path => "[json](" ++ path ++ ")"
  | none => "[json]"

def toSource (f : FileSource) : Source :=
  ⟨f.describe, f.records⟩

end FileSource

end RecordQuery
