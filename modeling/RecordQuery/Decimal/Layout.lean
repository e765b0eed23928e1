import RecordQuery.Decimal.Digits
import RecordQuery.Decimal.Shortest

namespace RecordQuery

namespace Decimal

/-- The whole part and the fraction of a decimal in positional notation. The whole part is never
empty. -/
def positional (d : Decimal) : List Char × List Char :=
  let digits := digitChars d.digits
  if 0 ≤ d.exponent then (digits ++ List.replicate d.exponent.toNat '0', [])
  else
    let places := (-d.exponent).toNat
    if places < digits.length then
      (digits.take (digits.length - places), digits.drop (digits.length - places))
    else (['0'], List.replicate (places - digits.length) '0' ++ digits)

/-- The exponent of the leading digit. -/
def leadingExponent (d : Decimal) : Int :=
  (digitChars d.digits).length - 1 + d.exponent

/-- One digit before the point, and an exponent with its sign. -/
def scientific (d : Decimal) : List Char :=
  let e := d.leadingExponent
  let mark := 'e' :: (if e < 0 then '-' else '+') :: digitChars e.natAbs
  match digitChars d.digits with
  | [] => mark
  | [c] => c :: mark
  | c :: rest => c :: '.' :: rest ++ mark

end Decimal

namespace Double

def signChars (negative : Bool) : List Char :=
  if negative then ['-'] else []

/-- The positional notation of a double, never with an exponent. With `pointed`, whole numbers below
`10 ^ 15` have a point with one zero behind it. -/
def positionalChars (pointed : Bool) (x : Float) : List Char :=
  match shape x with
  | .nan => ['N', 'a', 'N']
  | .infinite negative => signChars negative ++ ['i', 'n', 'f']
  | .finite negative mantissa exponent =>
    let d := Decimal.shortest .up mantissa exponent
    let (whole, fraction) := d.positional
    signChars negative ++
      if fraction ≠ [] then whole ++ '.' :: fraction
      else if pointed ∧ d.leadingExponent < 15 then whole ++ ['.', '0']
      else whole

/-- The notation of a double in values and results. -/
def displayChars (x : Float) : List Char :=
  positionalChars true x

def display (x : Float) : String :=
  String.ofList (displayChars x)

/-- The notation of a finite double in JSON: positional, with a point, while the leading digit
stands between the places `-5` and `15`, and otherwise scientific. -/
def jsonChars (x : Float) : List Char :=
  match shape x with
  | .finite negative mantissa exponent =>
    let d := Decimal.shortest .even mantissa exponent
    signChars negative ++
      if -5 ≤ d.leadingExponent ∧ d.leadingExponent ≤ 15 then
        let (whole, fraction) := d.positional
        whole ++ '.' :: if fraction = [] then ['0'] else fraction
      else d.scientific
  | _ => ['n', 'u', 'l', 'l']

end Double

end RecordQuery
