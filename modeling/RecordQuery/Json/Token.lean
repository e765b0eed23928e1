import RecordQuery.Decimal.Reading
import RecordQuery.Number
import RecordQuery.Text.Hexadecimal

namespace RecordQuery.Json

/-- The tokens of a JSON text. Blanks stand between them without being one. -/
inductive Token where
  | openArray
  | closeArray
  | openObject
  | closeObject
  | comma
  | colon
  | null
  | bool (b : Bool)
  | number (n : Number)
  | text (s : String)
  deriving DecidableEq

/-- The blanks of JSON are fewer than those of other texts. -/
def isSpace (c : Char) : Bool :=
  c == ' ' || c == '\n' || c == '\t' || c == '\r'

/-- The code unit that four hexadecimal digits denote. -/
def unit? (a b c d : Char) : Option Nat :=
  Text.hexNumber? [a, b, c, d]

/-- The character of an escape of one letter. -/
def escaped? (c : Char) : Option Char :=
  match c with
  | '"' => some '"'
  | '\\' => some '\\'
  | '/' => some '/'
  | 'b' => some '\x08'
  | 'f' => some '\x0c'
  | 'n' => some '\n'
  | 'r' => some '\r'
  | 't' => some '\t'
  | _ => none

/-- Reads the rest of a text behind its first quote, up to its last one. Control characters have
to be escaped, and escapes of surrogates have to come in pairs. -/
def readText : List Char → Option (List Char × List Char)
  | [] => none
  | '"' :: rest => some ([], rest)
  | '\\' :: 'u' :: a :: b :: c :: d :: rest =>
    match unit? a b c d with
    | none => none
    | some high =>
      if 0xDC00 ≤ high ∧ high < 0xE000 then none
      else if 0xD800 ≤ high ∧ high < 0xDC00 then
        match rest with
        | '\\' :: 'u' :: e :: f :: g :: h :: after =>
          match unit? e f g h with
          | none => none
          | some low =>
            if 0xDC00 ≤ low ∧ low < 0xE000 then
              (readText after).map fun (cs, left) =>
                (Char.ofNat (0x10000 + (high - 0xD800) * 0x400 + (low - 0xDC00)) :: cs, left)
            else none
        | _ => none
      else (readText rest).map fun (cs, left) => (Char.ofNat high :: cs, left)
  | '\\' :: c :: rest =>
    match escaped? c with
    | none => none
    | some e => (readText rest).map fun (cs, left) => (e :: cs, left)
  | c :: rest =>
    if c.toNat < 0x20 ∨ c = '\\' then none
    else (readText rest).map fun (cs, left) => (c :: cs, left)

/-- Adds digits to a significand while it stays below `2 ^ 64`. Gives back the digits left over. -/
def accumulate (significand : Nat) : List Char → Nat × List Char
  | [] => (significand, [])
  | c :: rest =>
    let next := 10 * significand + Decimal.digitValue c
    if next < Nat.pow 2 64 then accumulate next rest else (significand, c :: rest)

/-- Scales a double by a power of ten with one multiplication or division, after as many divisions
by `10 ^ 308` as it takes to get there. There is no result where the double is too large. -/
def scale (x : Float) (exponent : Int) : Option Float :=
  if -308 ≤ exponent ∧ exponent ≤ 308 then
    if 0 ≤ exponent then
      let scaled := x * Double.ofDecimal 1 exponent
      if Double.isFinite scaled then some scaled else none
    else some (x / Double.ofDecimal 1 (-exponent))
  else if x == 0.0 then some x
  else if 0 ≤ exponent then none
  else scale (x / Double.ofDecimal 1 308) (exponent + 308)
termination_by exponent.natAbs
decreasing_by omega

/-- The number of the digits before a point, those behind it if there is one, and an exponent if
there is one. Whole numbers without either are integers as long as they fit and are not minus
zero. Of a longer number only the digits of a significand below `2 ^ 64` count. -/
def numberOf? (negative : Bool) (whole : List Char) (fraction : Option (List Char))
    (exponent : Option Int) : Option Number :=
  let (significand, dropped) := accumulate 0 whole
  let signed (x : Float) : Number := .float (if negative then -x else x)
  match fraction, exponent with
  | none, none =>
    if dropped ≠ [] then (scale (Float.ofNat significand) dropped.length).map signed
    else if negative ∧ significand = 0 then some (signed 0.0)
    else
      match int64? (if negative then -(significand : Int) else significand) with
      | some n => some (.int n)
      | none => some (signed (Float.ofNat significand))
  | _, _ =>
    let digits := fraction.getD []
    let (significand, left) := accumulate significand digits
    let place : Int := dropped.length - (digits.length - left.length : Nat)
    (scale (Float.ofNat significand) (place + exponent.getD 0)).map signed

/-- The exponent behind its mark, and what follows it. -/
def readExponent (cs : List Char) : Option (Int × List Char) :=
  let (negative, cs) := match cs with
    | '-' :: rest => (true, rest)
    | '+' :: rest => (false, rest)
    | _ => (false, cs)
  let digits := Text.digitRun cs
  if digits = [] then none
  else
    let n : Int := Decimal.valueOf digits
    some (if negative then -n else n, Text.afterDigits cs)

/-- Reads the fraction behind a whole number, if there is one. -/
def readFraction (cs : List Char) : Option (Option (List Char) × List Char) :=
  match cs with
  | '.' :: rest =>
    let digits := Text.digitRun rest
    if digits = [] then none else some (some digits, Text.afterDigits rest)
  | _ => some (none, cs)

/-- Reads the exponent behind a number, if there is one. -/
def readMark (cs : List Char) : Option (Option Int × List Char) :=
  match cs with
  | c :: rest =>
    if c = 'e' ∨ c = 'E' then (readExponent rest).map fun (e, left) => (some e, left)
    else some (none, cs)
  | [] => some (none, cs)

/-- Reads a number behind its sign. A whole part of more than one digit does not begin with
zero. -/
def readNumber (negative : Bool) (cs : List Char) : Option (Number × List Char) := do
  let whole := Text.digitRun cs
  if whole = [] ∨ (whole.head? = some '0' ∧ whole.length ≠ 1) then none
  else
    let (fraction, rest) ← readFraction (Text.afterDigits cs)
    let (exponent, rest) ← readMark rest
    let number ← numberOf? negative whole fraction exponent
    pure (number, rest)

/-- Reads the token at the front of a text that does not begin with a blank. -/
def readToken : List Char → Option (Token × List Char)
  | '[' :: rest => some (.openArray, rest)
  | ']' :: rest => some (.closeArray, rest)
  | '\x7b' :: rest => some (.openObject, rest)
  | '\x7d' :: rest => some (.closeObject, rest)
  | ',' :: rest => some (.comma, rest)
  | ':' :: rest => some (.colon, rest)
  | '"' :: rest => (readText rest).map fun (cs, left) => (.text (String.ofList cs), left)
  | 'n' :: 'u' :: 'l' :: 'l' :: rest => some (.null, rest)
  | 't' :: 'r' :: 'u' :: 'e' :: rest => some (.bool true, rest)
  | 'f' :: 'a' :: 'l' :: 's' :: 'e' :: rest => some (.bool false, rest)
  | '-' :: rest => (readNumber true rest).map fun (n, left) => (.number n, left)
  | cs => (readNumber false cs).map fun (n, left) => (.number n, left)

/-- The tokens of a text. A token that leaves nothing of its text behind cannot occur, so giving up
there loses nothing. -/
def tokens? (cs : List Char) : Option (List Token) :=
  match cs with
  | [] => some []
  | c :: rest =>
    if isSpace c then tokens? rest
    else
      match readToken (c :: rest) with
      | none => none
      | some (token, left) =>
        if _shorter : left.length < (c :: rest).length then (tokens? left).map (token :: ·)
        else none
termination_by cs.length
decreasing_by
  · exact Nat.lt_succ_self _
  · exact _shorter

end RecordQuery.Json
