import RecordQuery.Double.Parts

namespace RecordQuery

/-- The number `digits` times ten to the `exponent`. -/
structure Decimal where
  digits : Nat
  exponent : Int
  deriving Repr, DecidableEq

namespace Decimal

/-- Which of two decimals is taken that lie equally near to the double. -/
inductive Tie where
  | up
  | even
  deriving Repr, DecidableEq

/-- A positive real number as a quotient. -/
structure Quotient where
  numerator : Nat
  denominator : Nat
  deriving Repr, DecidableEq

/-- The number `n` times two to the `exponent`. -/
def Quotient.ofBinary (n : Nat) (exponent : Int) : Quotient :=
  ⟨n * Nat.pow 2 exponent.toNat, Nat.pow 2 (-exponent).toNat⟩

/-- The grid point at or below `q` among the multiples of ten to the `place`. -/
def Quotient.floorAt (q : Quotient) (place : Int) : Nat :=
  q.numerator * Nat.pow 10 (-place).toNat / (q.denominator * Nat.pow 10 place.toNat)

/-- The order of `count` times ten to the `place` and `q`. -/
def Quotient.compareAt (q : Quotient) (count : Nat) (place : Int) : Ordering :=
  compare (count * (q.denominator * Nat.pow 10 place.toNat))
    (q.numerator * Nat.pow 10 (-place).toNat)

def Quotient.doubled (q : Quotient) : Quotient :=
  ⟨2 * q.numerator, q.denominator⟩

def digitCount (n : Nat) : Nat :=
  if n < 10 then 1 else digitCount (n / 10) + 1

/-- The exponent of the leading decimal digit of a positive number. -/
def Quotient.leadingPlace (q : Quotient) : Int :=
  if q.denominator ≤ q.numerator then (digitCount (q.numerator / q.denominator) : Int) - 1
  else
    let places := digitCount (q.denominator / q.numerator)
    if q.denominator = q.numerator * Nat.pow 10 (places - 1) then 1 - (places : Int) else -places

/-- The reals that are read back as one positive double: those between `low` and `high`, with
these two themselves when `closed` holds. -/
structure Interval where
  low : Quotient
  value : Quotient
  high : Quotient
  closed : Bool
  deriving Repr, DecidableEq

/-- Halfway to the neighbours of the double on both sides. The neighbour below a power of two is
half as far away as the one above, the least normal double excepted. -/
def Interval.around (mantissa : Nat) (exponent : Int) : Interval where
  low := .ofBinary (4 * mantissa - if mantissa = Nat.pow 2 52 ∧ -1074 < exponent then 1 else 2)
    (exponent - 2)
  value := .ofBinary (4 * mantissa) (exponent - 2)
  high := .ofBinary (4 * mantissa + 2) (exponent - 2)
  closed := mantissa % 2 == 0

def Interval.admits (interval : Interval) (count : Nat) (place : Int) : Bool :=
  let above := interval.low.compareAt count place
  let below := interval.high.compareAt count place
  (above == .gt || (interval.closed && above == .eq)) &&
    (below == .lt || (interval.closed && below == .eq))

/-- The multiple of ten to the `place` that is nearest to the double among those read back as it,
if there is one. Only the two neighbours of the double on that grid have to be looked at. -/
def Interval.pointAt? (interval : Interval) (tie : Tie) (place : Int) : Option Decimal :=
  let down := interval.value.floorAt place
  if interval.value.compareAt down place == .eq then some ⟨down, place⟩
  else
    match interval.admits down place, interval.admits (down + 1) place with
    | true, true =>
      match interval.value.doubled.compareAt (2 * down + 1) place, tie with
      | .gt, _ => some ⟨down, place⟩
      | .lt, _ => some ⟨down + 1, place⟩
      | .eq, .up => some ⟨down + 1, place⟩
      | .eq, .even => some ⟨if down % 2 = 0 then down else down + 1, place⟩
    | true, false => some ⟨down, place⟩
    | false, true => some ⟨down + 1, place⟩
    | false, false => none

/-- The same number without zeros at the end of its digits. -/
def normalize (digits : Nat) (exponent : Int) : Decimal :=
  if h : digits ≠ 0 ∧ digits % 10 = 0 then normalize (digits / 10) (exponent + 1)
  else ⟨digits, exponent⟩
termination_by digits
decreasing_by omega

/-- The decimal with the fewest digits that is read back as the double `mantissa` times two to
the `exponent`, and of those the nearest one. Seventeen digits are always enough. -/
def shortest (tie : Tie) (mantissa : Nat) (exponent : Int) : Decimal :=
  if mantissa = 0 then ⟨0, 0⟩
  else
    let interval := Interval.around mantissa exponent
    let leading := interval.value.leadingPlace
    match (List.range 17).findSome? fun (n : Nat) => interval.pointAt? tie (leading - n) with
    | some point => normalize point.digits point.exponent
    | none => ⟨0, 0⟩

end Decimal

end RecordQuery
