import RecordQuery.Calendar.Date
import RecordQuery.Number
import RecordQuery.Toml
import RecordQuery.Toml.Token

namespace RecordQuery.Toml

/-- The digits of a number without the lines between them. A line stands between two digits. -/
def ungrouped? (isDigit : Char → Bool) : List Char → Option (List Char)
  | [] => none
  | [c] => if isDigit c then some [c] else none
  | c :: '_' :: rest => if isDigit c then (ungrouped? isDigit rest).map (c :: ·) else none
  | c :: rest => if isDigit c then (ungrouped? isDigit rest).map (c :: ·) else none

/-- The natural number of digits to a base. -/
def natural? (base : Nat) (cs : List Char) : Option Nat := do
  let isDigit (c : Char) : Bool := (Text.hexValue? c).any fun d => d < base
  let digits ← ungrouped? isDigit cs
  let values ← digits.mapM Text.hexValue?
  pure (values.foldl (fun n d => base * n + d) 0)

/-- A natural number that begins with zero only if it is zero. -/
def whole? (cs : List Char) : Option Nat :=
  match cs with
  | '0' :: _ :: _ => none
  | _ => natural? 10 cs

/-- The sign in front of a number, and the number. -/
def unsigned : List Char → Bool × List Char
  | '-' :: rest => (true, rest)
  | '+' :: rest => (false, rest)
  | cs => (false, cs)

def integer? (cs : List Char) : Option Int := do
  let n : Int ← match cs with
    | '0' :: 'x' :: rest => (natural? 16 rest).map Int.ofNat
    | '0' :: 'o' :: rest => (natural? 8 rest).map Int.ofNat
    | '0' :: 'b' :: rest => (natural? 2 rest).map Int.ofNat
    | _ =>
      let (negative, body) := unsigned cs
      (whole? body).map fun n => if negative then -Int.ofNat n else Int.ofNat n
  let i ← int64? n
  pure i.toInt

/-- Whether a number is too large for a double. -/
def isHuge (body : List Char) : Bool :=
  (Number.ofUnsigned? false (body.filter (· != '_'))).any fun n =>
    Double.shape n.toFloat == .infinite false

/-- Whether a word is a number with a fraction, an exponent or both, or no finite number. Of those
that are too large for a double only the negative ones are numbers. -/
def isFractional (cs : List Char) : Bool :=
  let (negative, body) := unsigned cs
  if body = "inf".toList ∨ body = "nan".toList then true
  else
    let (mantissa, mark) := Text.splitAtFirst (fun c => c == 'e' || c == 'E') body
    let (whole, point) := Text.splitAtFirst (· == '.') mantissa
    (mark.isSome || point.isSome) && (whole? whole).isSome &&
      (point.map fun digits => (natural? 10 digits).isSome).getD true &&
      (mark.map fun text => (natural? 10 (unsigned text).2).isSome).getD true &&
      (negative || !isHuge body)

/-- Whether two characters are the digits of a number in a range. -/
def isTwoDigit (low high : Nat) (a b : Char) : Bool :=
  Text.isDigit a && Text.isDigit b &&
    low ≤ Decimal.valueOf [a, b] && Decimal.valueOf [a, b] ≤ high

/-- What follows a time of day at the front, if there is one. -/
def afterClock? : List Char → Option (List Char)
  | a :: b :: ':' :: c :: d :: ':' :: e :: f :: rest =>
    if isTwoDigit 0 23 a b && isTwoDigit 0 59 c d && isTwoDigit 0 60 e f then
      match rest with
      | '.' :: g :: more =>
        if Text.isDigit g then some (more.dropWhile Text.isDigit) else none
      | _ => some rest
    else none
  | _ => none

/-- Whether a text is the distance to universal time. -/
def isOffset : List Char → Bool
  | [] => true
  | ['Z'] => true
  | ['z'] => true
  | [sign, a, b, ':', c, d] =>
    (sign == '+' || sign == '-') && isTwoDigit 0 23 a b && isTwoDigit 0 59 c d
  | _ => false

/-- What follows a date at the front, if there is one. -/
def afterDate? : List Char → Option (List Char)
  | a :: b :: c :: d :: '-' :: e :: f :: '-' :: g :: h :: rest =>
    let length := Calendar.daysIn (Decimal.valueOf [a, b, c, d]) (Decimal.valueOf [e, f])
    if [a, b, c, d].all Text.isDigit && isTwoDigit 1 12 e f && isTwoDigit 1 length g h then
      some rest
    else none
  | _ => none

def isDate (cs : List Char) : Bool :=
  afterDate? cs == some []

/-- Whether a text is a time of day with a distance to universal time or without one. -/
def isClock (cs : List Char) : Bool :=
  (afterClock? cs).any isOffset

/-- Whether a word is a date, a time of day without a distance, or both. -/
def isTime (cs : List Char) : Bool :=
  match afterDate? cs with
  | some [] => true
  | some (c :: rest) => (c == 'T' || c == 't') && isClock rest
  | none => afterClock? cs == some []

/-- The value of a word. -/
def ofWord? (cs : List Char) : Option Toml :=
  if cs = "true".toList then some (.bool true)
  else if cs = "false".toList then some (.bool false)
  else
    match integer? cs with
    | some n => some (.int n)
    | none =>
      if isFractional cs then some .fractional
      else if isTime cs then some .time
      else none

end RecordQuery.Toml
