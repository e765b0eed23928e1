import RecordQuery.Decimal.Reading
import RecordQuery.Double.Parts
import RecordQuery.Text.Blank
import RecordQuery.Text.Pieces

namespace RecordQuery

/-- A number is a 64-bit integer or a double. -/
inductive Number where
  | int (n : Int64)
  | float (x : Float)
  deriving DecidableEq

/-- The 64-bit integer that an integer is, when it lies in the range. -/
def int64? (n : Int) : Option Int64 :=
  if Int64.minValue.toInt ≤ n ∧ n ≤ Int64.maxValue.toInt then some (Int64.ofInt n) else none

namespace Number

/-- The double nearest to a number. -/
def toFloat : Number → Float
  | .int n => Float.ofInt n.toInt
  | .float x => x

def isInt : Number → Bool
  | .int _ => true
  | .float _ => false

/-- Two integers are compared exactly, all other pairs as doubles. -/
def compare? : Number → Number → Option Ordering
  | .int a, .int b => some (compare a.toInt b.toInt)
  | a, b => Double.compare? a.toFloat b.toFloat

/-- The exponent that follows an exponent mark: digits with a sign or without. -/
def exponent? (cs : List Char) : Option Int :=
  match cs with
  | '-' :: digits => if Decimal.isNatural digits then some (-Decimal.valueOf digits) else none
  | '+' :: digits => if Decimal.isNatural digits then some (Decimal.valueOf digits) else none
  | digits => if Decimal.isNatural digits then some (Decimal.valueOf digits) else none

/-- Reads a number without blanks around it and without its sign. Digits alone are an integer as
long as it fits, and every other number is a double. -/
def ofUnsigned? (negative : Bool) (body : List Char) : Option Number :=
  let (mantissa, mark) := Text.splitAtFirst (fun c => c == 'e' || c == 'E') body
  let (whole, point) := Text.splitAtFirst (· == '.') mantissa
  if !Decimal.isNatural whole then none
  else
    match point, mark with
    | none, none =>
      let n : Int := if negative then -Decimal.valueOf whole else Decimal.valueOf whole
      match int64? n with
      | some i => some (.int i)
      | none => some (.float (Double.ofDigits negative whole [] 0))
    | some fraction, none =>
      if Decimal.isNatural fraction then some (.float (Double.ofDigits negative whole fraction 0))
      else none
    | none, some text =>
      (exponent? text).map fun e => .float (Double.ofDigits negative whole [] e)
    | some fraction, some text =>
      if Decimal.isNatural fraction then
        (exponent? text).map fun e => .float (Double.ofDigits negative whole fraction e)
      else none

/-- Reads a number, with blanks around it allowed. -/
def ofChars? (cs : List Char) : Option Number :=
  match Text.trimChars cs with
  | '-' :: body => ofUnsigned? true body
  | body => ofUnsigned? false body

def ofText? (s : String) : Option Number :=
  ofChars? s.toList

end Number

end RecordQuery
