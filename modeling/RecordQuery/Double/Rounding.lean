import RecordQuery.Double.Parts

namespace RecordQuery.Double

/-- Rounds to a whole number. The magnitude is cut to a whole part, and `raise` decides from the
sign, what was cut off and the unit of that remainder whether it grows by one. The sign is kept,
also that of a zero. -/
def roundBy (raise : Bool → Nat → Nat → Bool) (x : Float) : Float :=
  match shape x with
  | .finite negative mantissa exponent =>
    if 0 ≤ exponent then x
    else
      let unit := Nat.pow 2 (-exponent).toNat
      let whole := mantissa / unit
      ofParts negative (if raise negative (mantissa % unit) unit then whole + 1 else whole) 0
  | _ => x

def floor (x : Float) : Float :=
  roundBy (fun negative cut _ => negative && cut != 0) x

def ceil (x : Float) : Float :=
  roundBy (fun negative cut _ => !negative && cut != 0) x

/-- Rounding to the nearest whole number, where a half goes away from zero. -/
def round (x : Float) : Float :=
  roundBy (fun _ cut unit => unit ≤ 2 * cut) x

/-- Whether a double is a whole number. -/
def isWhole (x : Float) : Bool :=
  match shape x with
  | .finite _ mantissa exponent => 0 ≤ exponent || mantissa % Nat.pow 2 (-exponent).toNat == 0
  | _ => false

/-- The whole number next to a finite double on the side of zero. -/
def truncate? (x : Float) : Option Int :=
  match shape x with
  | .finite negative mantissa exponent =>
    let magnitude : Nat :=
      if 0 ≤ exponent then mantissa * Nat.pow 2 exponent.toNat
      else mantissa / Nat.pow 2 (-exponent).toNat
    some (if negative then -magnitude else magnitude)
  | _ => none

/-- The 64-bit integer nearest to the truncated double. What lies outside the range goes to the
end it lies beyond, and a NaN to zero. -/
def saturate (x : Float) : Int64 :=
  match shape x with
  | .nan => 0
  | .infinite negative => if negative then Int64.minValue else Int64.maxValue
  | .finite .. =>
    match truncate? x with
    | some n =>
      if n < Int64.minValue.toInt then Int64.minValue
      else if Int64.maxValue.toInt < n then Int64.maxValue
      else Int64.ofInt n
    | none => 0

/-- The remainder of a division that truncates, computed exactly on the two doubles. It has the
sign of `x`, and is not a number when `x` is infinite or `y` is zero. -/
def remainder (x y : Float) : Float :=
  match shape x, shape y with
  | .finite negative m e, .finite _ n f =>
    if n = 0 then 0.0 / 0.0
    else
      let least := min e f
      let rest := (m * Nat.pow 2 (e - least).toNat) % (n * Nat.pow 2 (f - least).toNat)
      ofParts negative rest least
  | .finite .., .infinite _ => x
  | _, _ => 0.0 / 0.0

end RecordQuery.Double
