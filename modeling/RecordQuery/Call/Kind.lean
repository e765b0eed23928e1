import RecordQuery.Text.Case

namespace RecordQuery

/-- The functions that a query may call. -/
inductive FunctionKind where
  | count
  | sum
  | avg
  | min
  | max
  | groupConcat
  | upper
  | lower
  | length
  | trim
  | reverse
  | concat
  | concatWs
  | substring
  | replace
  | explode
  | implode
  | round
  | floor
  | ceil
  | abs
  | mod
  | coalesce
  | ifNull
  | sha256
  | now
  | dateFormat
  | uuid
  deriving DecidableEq, Repr

namespace FunctionKind

def name : FunctionKind → String
  | .count => "COUNT"
  | .sum => "SUM"
  | .avg => "AVG"
  | .min => "MIN"
  | .max => "MAX"
  | .groupConcat => "GROUP_CONCAT"
  | .upper => "UPPER"
  | .lower => "LOWER"
  | .length => "LENGTH"
  | .trim => "TRIM"
  | .reverse => "REVERSE"
  | .concat => "CONCAT"
  | .concatWs => "CONCAT_WS"
  | .substring => "SUBSTRING"
  | .replace => "REPLACE"
  | .explode => "EXPLODE"
  | .implode => "IMPLODE"
  | .round => "ROUND"
  | .floor => "FLOOR"
  | .ceil => "CEIL"
  | .abs => "ABS"
  | .mod => "MOD"
  | .coalesce => "COALESCE"
  | .ifNull => "IF_NULL"
  | .sha256 => "SHA256"
  | .now => "NOW"
  | .dateFormat => "DATE_FORMAT"
  | .uuid => "UUID"

def all : List FunctionKind :=
  [.count, .sum, .avg, .min, .max, .groupConcat, .upper, .lower, .length, .trim, .reverse, .concat,
    .concatWs, .substring, .replace, .explode, .implode, .round, .floor, .ceil, .abs, .mod,
    .coalesce, .ifNull, .sha256, .now, .dateFormat, .uuid]

/-- The function of a name in any case. -/
def ofName? (s : String) : Option FunctionKind :=
  all.find? fun kind => kind.name == Text.upperAscii s

/-- Whether a function takes all rows of a group together. -/
def isAggregate : FunctionKind → Bool
  | .count | .sum | .avg | .min | .max | .groupConcat => true
  | _ => false

/-- The least number of arguments, and the greatest one where there is any. -/
def arity : FunctionKind → Nat × Option Nat
  | .count => (0, some 1)
  | .sum | .avg | .min | .max => (1, some 1)
  | .groupConcat => (1, some 2)
  | .upper | .lower | .length | .trim | .reverse => (1, some 1)
  | .concat => (1, none)
  | .concatWs => (2, none)
  | .substring => (2, some 3)
  | .replace => (3, some 3)
  | .explode | .implode => (1, some 2)
  | .round => (1, some 2)
  | .floor | .ceil | .abs => (1, some 1)
  | .mod => (2, some 2)
  | .coalesce => (1, none)
  | .ifNull => (2, some 2)
  | .sha256 => (1, some 1)
  | .now => (0, some 1)
  | .dateFormat => (2, some 2)
  | .uuid => (0, some 0)

def takes (kind : FunctionKind) (count : Nat) : Bool :=
  kind.arity.1 ≤ count &&
    match kind.arity.2 with
    | some most => count ≤ most
    | none => true

/-- The numbers of arguments that a function takes, in words. -/
def arityText (kind : FunctionKind) : String :=
  match kind.arity with
  | (least, some most) =>
    if most = least then toString least else toString least ++ " to " ++ toString most
  | (least, none) => "at least " ++ toString least

end FunctionKind

end RecordQuery
