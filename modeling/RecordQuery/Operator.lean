import RecordQuery.LikePattern
import RecordQuery.Text.Pieces
import RecordQuery.Value.Order

namespace RecordQuery

/-- How a condition compares the value of a field with its operand. -/
inductive Operator where
  | equal
  | strictEqual
  | notEqual
  | notStrictEqual
  | less
  | lessOrEqual
  | greater
  | greaterOrEqual
  | inList
  | notInList
  | like
  | notLike
  | is
  | isNot
  | contains
  | startsWith
  | endsWith
  deriving DecidableEq, Repr

namespace Operator

def symbol : Operator → String
  | .equal => "="
  | .strictEqual => "=="
  | .notEqual => "!="
  | .notStrictEqual => "!=="
  | .less => "<"
  | .lessOrEqual => "<="
  | .greater => ">"
  | .greaterOrEqual => ">="
  | .inList => "IN"
  | .notInList => "NOT IN"
  | .like => "LIKE"
  | .notLike => "NOT LIKE"
  | .is => "IS"
  | .isNot => "IS NOT"
  | .contains => "CONTAINS"
  | .startsWith => "STARTS_WITH"
  | .endsWith => "ENDS_WITH"

def all : List Operator :=
  [.equal, .strictEqual, .notEqual, .notStrictEqual, .less, .lessOrEqual, .greater, .greaterOrEqual,
    .inList, .notInList, .like, .notLike, .is, .isNot, .contains, .startsWith, .endsWith]

/-- The operator of a symbol, in any case and with any blanks around and between its words. -/
def ofSymbol? (s : String) : Option Operator :=
  let name := Text.upper (Text.join " " ((Text.words s.toList).map String.ofList))
  if name = "<>" then some .notEqual else all.find? fun op => op.symbol == name

/-- Whether a join may look rows up by their key instead of comparing all of them. -/
def isEquality : Operator → Bool
  | .equal => true
  | .strictEqual => true
  | _ => false

end Operator

namespace Value

/-- Whether a value is one of a list, or is the one value given in place of a list. -/
def isIn (v : Value) : Value → Bool
  | .array items => items.any fun item => v.looseEq item
  | item => v.looseEq item

/-- Whether a value is of the kind that a name denotes. There is no answer for other names. -/
def hasKind? (v : Value) (name : String) : Option Bool :=
  match Text.upperAscii name with
  | "NUMBER" | "NUMERIC" => some (v.typeName == "int" || v.typeName == "float")
  | "INT" | "INTEGER" => some (v.typeName == "int")
  | "FLOAT" | "DOUBLE" => some (v.typeName == "float")
  | "STRING" => some (v.typeName == "string")
  | "ARRAY" | "LIST" => some (v.typeName == "array")
  | "OBJECT" | "RECORD" => some (v.typeName == "object")
  | "BOOLEAN" | "BOOL" => some (v.typeName == "boolean")
  | _ => none

/-- Whether a value is of the kind that the operand names, or is strictly equal to the operand when
that names no kind. -/
def isSuch (v operand : Value) : Bool :=
  match operand with
  | .text name => (v.hasKind? name).getD (v.strictEq operand)
  | _ => v.strictEq operand

/-- Whether the bare text of a value matches the pattern that the bare text of the operand is.
Null matches nothing. -/
def isLike (v operand : Value) : Bool :=
  !v.isNull && (LikePattern.ofText operand.toText).isMatch v.toText

/-- Whether an array has an item loosely equal to the operand, or the bare text of another value
has the one of the operand in it. Null contains nothing. -/
def contains (v operand : Value) : Bool :=
  match v with
  | .null => false
  | .array items => items.any fun item => item.looseEq operand
  | v => Text.containsChars operand.toText.toList v.toText.toList

def startsWith (v operand : Value) : Bool :=
  !v.isNull && operand.toText.toList.isPrefixOf v.toText.toList

def endsWith (v operand : Value) : Bool :=
  !v.isNull && operand.toText.toList.isSuffixOf v.toText.toList

end Value

/-- Compares the value of a field with an operand. -/
def Operator.apply (op : Operator) (v operand : Value) : Bool :=
  match op with
  | .equal => v.looseEq operand
  | .strictEqual => v.strictEq operand
  | .notEqual => !v.looseEq operand
  | .notStrictEqual => !v.strictEq operand
  | .less => v.compare? operand == some .lt
  | .lessOrEqual => v.compare? operand == some .lt || v.compare? operand == some .eq
  | .greater => v.compare? operand == some .gt
  | .greaterOrEqual => v.compare? operand == some .gt || v.compare? operand == some .eq
  | .inList => v.isIn operand
  | .notInList => !v.isIn operand
  | .like => v.isLike operand
  | .notLike => !v.isLike operand
  | .is => v.isSuch operand
  | .isNot => !v.isSuch operand
  | .contains => v.contains operand
  | .startsWith => v.startsWith operand
  | .endsWith => v.endsWith operand

end RecordQuery
