import RecordQuery.CommandLine.Arguments
import RecordQuery.CommandLine.Help
import RecordQuery.Output
import RecordQuery.Query.Execution
import RecordQuery.Settings
import RecordQuery.Source.Files
import RecordQuery.Statement

namespace RecordQuery.CommandLine

/-- Why the program fails. -/
inductive Failure where
  | unreadableSettings (path : String) (fault : ReadFault)
  | malformedSettings (path : String)
  | noQuery
  | query (e : QueryError)
  deriving DecidableEq, Repr

/-- An error with those that it comes from, the outermost one first. -/
def causes (e : QueryError) : List String :=
  match e with
  | .source (.unreadable fault) =>
    [e.message, (SourceFault.unreadable fault).message, fault.message]
  | .source fault => [e.message, fault.message]
  | _ => [e.message]

/-- What is said about a failure. An error is followed by those that it comes from. -/
def Failure.message : Failure → String
  | .unreadableSettings path fault =>
    "failed to load config " ++ path ++ ": Config error: Failed to read config: " ++ fault.message
  | .malformedSettings path =>
    "failed to load config " ++ path ++ ": Config error: Failed to parse config"
  | .noQuery => "no query given"
  | .query e => Text.join ": " (("Query error: " ++ e.message) :: causes e)

/-- What the program finds around it: files, its input, and whether its output may have color. -/
structure Surroundings where
  files : FileContents
  input : String
  terminal : Bool
  ambient : Ambient

/-- What the program leaves behind: an exit code, and what it has written. -/
structure Answer where
  code : Nat
  output : String
  errors : String
  deriving DecidableEq, Repr

namespace Invocation

/-- Whether output may have color. -/
def color (i : Invocation) (s : Surroundings) : Bool :=
  s.terminal && !i.noColor

/-- The settings in the file that is named for them. -/
def settings (i : Invocation) (files : FileContents) : Except Failure Settings :=
  match i.config with
  | none => .ok .default
  | some path =>
    match files.read path with
    | .error fault => .error (.unreadableSettings path fault)
    | .ok text =>
      match Settings.ofToml? text with
      | none => .error (.malformedSettings path)
      | some s => .ok s

/-- Whether the query is read from the input. -/
def readsInput (i : Invocation) : Bool :=
  i.query.isNone && i.text.isNone

/-- The text of the query. -/
def statement (i : Invocation) (input : String) : Except Failure String :=
  let text := Text.trim (((i.query.or i.text).getD input))
  if text.isEmpty then .error .noQuery else .ok text

def source (i : Invocation) (files : FileContents) : Source :=
  FileSource.toSource ⟨i.file, files⟩

/-- All rows of a query. -/
def rows (i : Invocation) (s : Surroundings) (q : Query) : Except QueryError (List Record) := do
  let results ← q.execute s.ambient (i.source s.files)
  results.fetchAll none

/-- The rows of a query in the format that was asked for, or its plan. -/
def output (i : Invocation) (s : Surroundings) : Except Failure String := do
  let settings ← i.settings s.files
  let text ← i.statement s.input
  let q ← (Query.ofText settings.query text).mapError .query
  if i.explain then pure (Plan.ofQuery q).explain
  else
    let rows ← (i.rows s q).mapError .query
    pure (Output.render (.ofName (i.format.getD "table")) (i.color s) rows)

/-- Runs the program. -/
def run (i : Invocation) (s : Surroundings) : Answer :=
  match i.output s with
  | .ok text => ⟨0, text, ""⟩
  | .error failure =>
    let label := String.ofList (Output.styled (i.color s) .alarm "Error:".toList)
    ⟨1, "", label ++ " " ++ failure.message ++ "\n"⟩

/-- The files that a run may read: the one with the settings, the default one, and those that the
query names. -/
def paths (i : Invocation) (input : String) : List String :=
  let named := match i.statement input with
    | .error _ => []
    | .ok text =>
      match Query.ofText .default text with
      | .error _ => []
      | .ok q => q.paths
  i.config.toList ++ i.file.toList ++ named

end Invocation

/-- Answers a request. -/
def Request.answer (environment : Option String) (s : Surroundings) : Request → Answer
  | .help => ⟨0, helpText environment, ""⟩
  | .version => ⟨0, versionText, ""⟩
  | .misuse => ⟨2, "", misuseText⟩
  | .run i => i.run s

end RecordQuery.CommandLine
