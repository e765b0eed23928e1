import RecordQuery.Query
import RecordQuery.Toml.Reading
import RecordQuery.Toml.Text

namespace RecordQuery

/-- The settings of the program: how queries are made and run, and how much is logged. -/
structure Settings where
  query : QuerySettings
  logLevel : String
  deriving DecidableEq, Repr

namespace Settings

def default : Settings :=
  ⟨.default, "warn"⟩

/-- Whether AND binds tighter, as a value says it or else as it is by default. -/
def grouping? : Option Toml → Option Bool
  | none => some true
  | some (.bool b) => some b
  | some _ => none

/-- The seed of shuffled orders, which is a natural number. -/
def seed? : Option Toml → Option (Option Nat)
  | none => some none
  | some (.int n) => if n < 0 then none else some (some n.toNat)
  | some _ => none

def level? : Option Toml → Option String
  | none => some "warn"
  | some (.text s) => some s
  | some _ => none

/-- A setting by its name in a table, or by its place in an array. A time has parts with other
names. -/
def entry? (name : String) (place : Nat) : Option Toml → Option (Option Toml)
  | none => some none
  | some (.table _ fields) => some (fields.lookup name)
  | some (.closed fields) => some (fields.lookup name)
  | some (.array items) => some items[place]?
  | some .time => some none
  | some _ => none

/-- Reads settings. What is not there is as it is by default, and other keys mean nothing. -/
def ofToml? (text : String) : Option Settings := do
  let fields ← Toml.read? text
  let query := fields.lookup "query"
  let grouping ← grouping? (← entry? "grouping" 0 query)
  let seed ← seed? (← entry? "shuffle_seed" 1 query)
  let logLevel ← level? (← entry? "level" 0 (fields.lookup "log"))
  pure ⟨⟨grouping, seed⟩, logLevel⟩

/-- The settings as a document. A seed is left out when there is none. -/
def toToml (s : Settings) : String :=
  let seed := match s.query.seed with
    | some n => "shuffle_seed = ".toList ++ Decimal.digitChars n ++ ['\n']
    | none => []
  String.ofList <|
    "[query]\ngrouping = ".toList ++ (if s.query.grouping then "true" else "false").toList ++
      '\n' :: seed ++ "\n[log]\nlevel = ".toList ++ Toml.textChars s.logLevel.toList ++ ['\n']

end Settings

end RecordQuery
