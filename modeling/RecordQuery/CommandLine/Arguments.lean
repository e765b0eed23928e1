import RecordQuery.Text.Pieces

namespace RecordQuery.CommandLine

/-- The options that take a value. -/
inductive ValueOption where
  | query
  | file
  | format
  | config
  deriving DecidableEq, Repr

/-- What the arguments of the program say. -/
structure Invocation where
  text : Option String
  query : Option String
  file : Option String
  format : Option String
  config : Option String
  explain : Bool
  noColor : Bool
  deriving DecidableEq, Repr

/-- What the program is asked to do. -/
inductive Request where
  | help
  | version
  | misuse
  | run (i : Invocation)
  deriving DecidableEq, Repr

namespace Invocation

def empty : Invocation :=
  ⟨none, none, none, none, none, false, false⟩

/-- Sets an option, which may be done once. A file needs a name. -/
def set? (i : Invocation) (option : ValueOption) (v : String) : Option Invocation :=
  match option with
  | .query => if i.query.isSome then none else some { i with query := v }
  | .file => if i.file.isSome || v.isEmpty then none else some { i with file := v }
  | .format => if i.format.isSome then none else some { i with format := v }
  | .config => if i.config.isSome || v.isEmpty then none else some { i with config := v }

/-- Sets the text of the query, which may be done once. -/
def setText? (i : Invocation) (v : String) : Option Invocation :=
  if i.text.isSome then none else some { i with text := v }

/-- All that is left is no option. -/
def setTexts? (i : Invocation) : List String → Option Invocation
  | [] => some i
  | v :: rest => (i.setText? v).bind fun next => next.setTexts? rest

/-- The request of all arguments. Settings may be named by the environment instead, and the query
may be given in one way only. -/
def request (i : Invocation) (environment : Option String) : Request :=
  let completed := match i.config, environment with
    | none, some path => i.set? .config path
    | _, _ => some i
  match completed with
  | none => .misuse
  | some i => if i.query.isSome && i.text.isSome then .misuse else .run i

end Invocation

/-- What an argument is: an option with its value or with the value still to come, a switch, or
something else. -/
inductive Argument where
  | value (option : ValueOption) (v : String)
  | option (option : ValueOption)
  | explain
  | noColor
  | help
  | version
  | rest
  | text (v : String)
  | unknown

/-- An option by its long name. -/
def longArgument (name : List Char) (v : Option (List Char)) : Argument :=
  let withValue (option : ValueOption) : Argument :=
    match v with
    | some cs => .value option (String.ofList cs)
    | none => .option option
  let switch (a : Argument) : Argument := if v.isSome then .unknown else a
  match String.ofList name with
  | "query" => withValue .query
  | "file" => withValue .file
  | "format" => withValue .format
  | "config" => withValue .config
  | "explain" => switch .explain
  | "no-color" => switch .noColor
  | "help" => switch .help
  | "version" => switch .version
  | _ => .unknown

/-- An option by its letter. A value may follow the letter, with an equals sign between them or
without. -/
def shortArgument (letter : Char) (more : List Char) : Argument :=
  let withValue (option : ValueOption) : Argument :=
    match more with
    | [] => .option option
    | '=' :: cs => .value option (String.ofList cs)
    | cs => .value option (String.ofList cs)
  match letter with
  | 'q' => withValue .query
  | 'f' => withValue .file
  | 'h' => .help
  | 'V' => .version
  | _ => .unknown

def Argument.ofText (text : String) : Argument :=
  match text.toList with
  | ['-', '-'] => .rest
  | '-' :: '-' :: long =>
    let (name, v) := Text.splitAtFirst (· == '=') long
    longArgument name v
  | '-' :: letter :: more => shortArgument letter more
  | _ => .text text

/-- Whether an argument can be the value of an option in front of it. -/
def isValue (text : String) : Bool :=
  match text.toList with
  | '-' :: _ :: _ => false
  | _ => true

/-- Reads arguments up to the first one that settles the request. -/
def requestFrom (environment : Option String) (i : Invocation) : List String → Request
  | [] => i.request environment
  | text :: rest =>
    match Argument.ofText text with
    | .value option v =>
      match i.set? option v with
      | some next => requestFrom environment next rest
      | none => .misuse
    | .option option =>
      match rest with
      | [] => .misuse
      | v :: rest =>
        if isValue v then
          match i.set? option v with
          | some next => requestFrom environment next rest
          | none => .misuse
        else .misuse
    | .explain =>
      if i.explain then .misuse else requestFrom environment { i with explain := true } rest
    | .noColor =>
      if i.noColor then .misuse else requestFrom environment { i with noColor := true } rest
    | .help => .help
    | .version => .version
    | .rest =>
      match i.setTexts? rest with
      | some next => next.request environment
      | none => .misuse
    | .text v =>
      match i.setText? v with
      | some next => requestFrom environment next rest
      | none => .misuse
    | .unknown => .misuse

/-- What the program is asked to do by its arguments, and by the environment, which may name the
file of the settings. -/
def Request.ofArguments (environment : Option String) (arguments : List String) : Request :=
  requestFrom environment .empty arguments

end RecordQuery.CommandLine
