import RecordQuery.Decimal.Digits
import RecordQuery.Decimal.Shortest

namespace RecordQuery.Double

/-- The double nearest to `mantissa` times ten to the `exponent`. Exponents far beyond the range
of a double are settled at once: what has its leading digit above place 310 is infinite, and what
has it below place -330 is zero. -/
def ofDecimal (mantissa : Nat) (exponent : Int) : Float :=
  if mantissa = 0 then 0.0
  else
    let leading := Decimal.digitCount mantissa + exponent
    if 310 < leading then 1.0 / 0.0
    else if leading < -330 then 0.0
    else Float.ofScientific mantissa (exponent < 0) exponent.natAbs

/-- The decimal that digits before and after a point and an exponent denote. -/
def ofDigits (negative : Bool) (whole fraction : List Char) (exponent : Int) : Float :=
  let magnitude := ofDecimal (Decimal.valueOf (whole ++ fraction)) (exponent - fraction.length)
  if negative then -magnitude else magnitude

end RecordQuery.Double
