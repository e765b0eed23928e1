namespace RecordQuery.Double

/-- What a double stands for. A finite one is `mantissa` times two to the `exponent`, exactly. -/
inductive Shape where
  | nan
  | infinite (negative : Bool)
  | finite (negative : Bool) (mantissa : Nat) (exponent : Int)
  deriving Repr, DecidableEq

def shape (x : Float) : Shape :=
  let bits : Nat := x.toBits.toNat
  let negative := decide (Nat.pow 2 63 ≤ bits)
  let biased : Nat := bits / Nat.pow 2 52 % Nat.pow 2 11
  let fraction : Nat := bits % Nat.pow 2 52
  if biased = 2047 then
    if fraction = 0 then .infinite negative else .nan
  else if biased = 0 then .finite negative fraction (-1074)
  else .finite negative (fraction + Nat.pow 2 52) ((biased : Int) - 1075)

def isFinite (x : Float) : Bool :=
  match shape x with
  | .finite .. => true
  | _ => false

/-- The double `mantissa` times two to the `exponent`, for a mantissa below `2 ^ 53` and a value
that a double can hold. The mantissa is shifted up until it fills 53 bits or the exponent is the
least one. -/
def ofParts (negative : Bool) (mantissa : Nat) (exponent : Int) : Float :=
  let shift := min (52 - mantissa.log2) (exponent + 1074).toNat
  let scaled := mantissa * Nat.pow 2 shift
  let magnitude :=
    if scaled < Nat.pow 2 52 then scaled
    else scaled - Nat.pow 2 52 + (exponent - shift + 1075).toNat * Nat.pow 2 52
  Float.ofBits (UInt64.ofNat (magnitude + if negative then Nat.pow 2 63 else 0))

/-- The position of a double in the total order of bit patterns, in which every NaN lies outside
the infinities and `-0.0` below `0.0`. -/
def totalKey (x : Float) : Int :=
  let bits : Nat := x.toBits.toNat
  if Nat.pow 2 63 ≤ bits then -((bits - Nat.pow 2 63 : Nat) : Int) - 1 else bits

/-- The order of two doubles by value. A NaN is not ordered to anything. -/
def compare? (x y : Float) : Option Ordering :=
  if x < y then some .lt
  else if x == y then some .eq
  else if y < x then some .gt
  else none

end RecordQuery.Double
