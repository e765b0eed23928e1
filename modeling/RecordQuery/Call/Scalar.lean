import RecordQuery.Ambient
import RecordQuery.Calendar.Format
import RecordQuery.Calendar.Reading
import RecordQuery.Call.Kind
import RecordQuery.Double.Rounding
import RecordQuery.Error
import RecordQuery.Text.Pieces
import RecordQuery.Value

namespace RecordQuery

namespace Scalar

/-- Changes the bare text of a value. Null stays null. -/
def mapText (f : List Char → List Char) (v : Value) : Value :=
  if v.isNull then .null else .text (String.ofList (f v.toText.toList))

/-- The number that an argument has to be. Null is none. -/
def number (kind : FunctionKind) (v : Value) : Except QueryError (Option Number) :=
  if v.isNull then .ok none
  else
    match v.number? with
    | some n => .ok (some n)
    | none => .error (.notNumeric v.display kind.name)

/-- The whole number that an argument has to be. -/
def integer (kind : FunctionKind) (v : Value) : Except QueryError Int64 :=
  match number kind v with
  | .error e => .error e
  | .ok (some (.int n)) => .ok n
  | .ok (some (.float x)) =>
    if Double.isWhole x then .ok (Double.saturate x)
    else .error (.expectedInteger kind.name v.display)
  | .ok none => .error (.expectedInteger kind.name v.display)

/-- The separator of lists, which is a comma when none is given. -/
def separator (v : Value) : List Char :=
  if v.isNull then [','] else v.toText.toList

def length (v : Value) : Value :=
  match v with
  | .null => .null
  | .array items => .ofNat items.length
  | .record fields => .ofNat fields.length
  | v => .ofNat v.toText.length

/-- The place in a text of `size` characters that a number stands for. A negative one counts from
the end. -/
def placeIn (size : Nat) (n : Int) : Nat :=
  if n < 0 then size - n.natAbs else min n.toNat size

/-- The end of a piece that begins at `start`: a number of characters on, or for a negative number
as many characters before the end of the text, and never before the start. -/
def endOf (size start : Nat) (n : Int) : Nat :=
  if n < 0 then max (size - n.natAbs) start else min (start + n.toNat) size

/-- The piece of a text from one place up to another. -/
def piece (start stop : Nat) (cs : List Char) : List Char :=
  (cs.take stop).drop start

def substring (v start length : Value) : Except QueryError Value :=
  if v.isNull then .ok .null
  else do
    let cs := v.toText.toList
    let start ← integer .substring start
    let start := placeIn cs.length start.toInt
    if length.isNull then pure (.text (String.ofList (piece start cs.length cs)))
    else
      let count ← integer .substring length
      pure (.text (String.ofList (piece start (endOf cs.length start count.toInt) cs)))

def replace (v search replacement : Value) : Value :=
  mapText (Text.replaceChars search.toText.toList replacement.toText.toList) v

def explode (v mark : Value) : Value :=
  if v.isNull then .null
  else .array ((Text.splitChars (separator mark) v.toText.toList).map fun piece =>
    .text (String.ofList piece))

def implode (v mark : Value) : Value :=
  match v with
  | .null => .null
  | .array items =>
    .text <| String.ofList <|
      Text.joinChars (separator mark) (items.map fun item => item.toText.toList)
  | v => .text v.toText

/-- The factor that moves a decimal point. -/
def pointFactor (places : Int) : Float :=
  if places < 0 then 1.0 / Double.ofDecimal 1 (-places) else Double.ofDecimal 1 places

def round (v places : Value) : Except QueryError Value := do
  match ← number .round v with
  | none => pure .null
  | some n =>
    let places ← if places.isNull then pure 0 else (integer .round places).map Int64.toInt
    let factor := pointFactor (max (-15) (min places 15))
    pure (.float (Double.round (n.toFloat * factor) / factor))

/-- A whole double as an integer, when it lies between the doubles nearest to the ends of the
integers. -/
def wholeValue (x : Float) : Value :=
  if Double.isFinite x && Float.ofInt Int64.minValue.toInt ≤ x &&
    x ≤ Float.ofInt Int64.maxValue.toInt then .int (Double.saturate x)
  else .float x

def toWhole (kind : FunctionKind) (rounding : Float → Float) (v : Value) :
    Except QueryError Value := do
  match ← number kind v with
  | none => pure .null
  | some (.int n) => pure (.int n)
  | some (.float x) => pure (wholeValue (rounding x))

/-- The magnitude of a number. That of the least integer is not one and becomes a double. -/
def abs (v : Value) : Except QueryError Value := do
  match ← number .abs v with
  | none => pure .null
  | some (.int n) =>
    match int64? n.toInt.natAbs with
    | some m => pure (.int m)
    | none => pure (.float (Float.ofInt n.toInt).abs)
  | some (.float x) => pure (.float x.abs)

/-- The remainder of a division that truncates, exact for two integers. -/
def mod (v w : Value) : Except QueryError Value := do
  let a ← number .mod v
  let b ← number .mod w
  match a, b with
  | some (.int x), some (.int y) =>
    if y = 0 then throw .divisionByZero else pure (.int (Int64.ofInt (x.toInt.tmod y.toInt)))
  | some x, some y =>
    if y.toFloat == 0.0 then throw .divisionByZero
    else pure (.float (Double.remainder x.toFloat y.toFloat))
  | _, _ => pure .null

/-- The moment that a value denotes: seconds since the beginning of 1970, or a written date. Null
is none. -/
def moment (v : Value) : Except QueryError (Option Calendar.Moment) :=
  let found := match v with
    | .int n => Calendar.Moment.ofTimestamp? n.toInt
    | .float x => Calendar.Moment.ofTimestamp? (Double.saturate x).toInt
    | .text s => Calendar.Moment.ofText? s
    | _ => none
  if v.isNull then .ok none
  else
    match found with
    | some m => .ok (some m)
    | none => .error (.notDate v.display)

def formatted (m : Calendar.Moment) (format : String) : Except QueryError Value :=
  match m.format? format with
  | some text => .ok (.text text)
  | none => .error (.invalidDateFormat format)

def dateFormat (v format : Value) : Except QueryError Value := do
  match ← moment v with
  | none => pure .null
  | some m => formatted m format.toText

def now (ambient : Ambient) (format : Value) : Except QueryError Value :=
  if format.isNull then .ok (.text (String.ofList ambient.now.stampChars))
  else formatted ambient.now format.toText

/-- Computes a function of one row from the values of its arguments. Arguments that are not given
are null, and `place` tells this call from the calls in other rows. -/
def compute (ambient : Ambient) (place : String) (kind : FunctionKind) (arguments : List Value) :
    Except QueryError Value :=
  let first := arguments.getD 0 .null
  let second := arguments.getD 1 .null
  let third := arguments.getD 2 .null
  match kind with
  | .upper => .ok (mapText (fun cs => (Text.upper (String.ofList cs)).toList) first)
  | .lower => .ok (mapText (fun cs => (Text.lower (String.ofList cs)).toList) first)
  | .trim => .ok (mapText Text.trimChars first)
  | .reverse => .ok (mapText List.reverse first)
  | .length => .ok (length first)
  | .concat => .ok (.text (Text.join "" (arguments.map Value.toText)))
  | .concatWs =>
    .ok (.text (Text.join first.toText
      ((arguments.tail.filter fun v => !v.isNull).map Value.toText)))
  | .substring => substring first second third
  | .replace => .ok (replace first second third)
  | .explode => .ok (explode first second)
  | .implode => .ok (implode first second)
  | .round => round first second
  | .floor => toWhole .floor Double.floor first
  | .ceil => toWhole .ceil Double.ceil first
  | .abs => abs first
  | .mod => mod first second
  | .coalesce => .ok ((arguments.find? fun v => !v.isNull).getD .null)
  | .ifNull => .ok (if first.isNull then second else first)
  | .sha256 => .ok (if first.isNull then .null else .text (Digest.Sha256.ofText first.toText))
  | .now => now ambient first
  | .dateFormat => dateFormat first second
  | .uuid => .ok (.text (ambient.draws.identifier place))
  | kind => .error (.aggregateOutsideGroup kind.name)

end Scalar

end RecordQuery
