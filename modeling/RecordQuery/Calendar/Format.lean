import RecordQuery.Calendar.Date
import RecordQuery.Decimal.Digits
import RecordQuery.Text.Blank

namespace RecordQuery.Calendar

/-- What fills up a number that is shorter than its width. -/
inductive Pad where
  | none
  | zero
  | space
  deriving DecidableEq, Repr

/-- The numbers that a format may ask for. -/
inductive NumberField where
  | year
  | century
  | yearOfCentury
  | isoYear
  | isoYearOfCentury
  | quarter
  | month
  | day
  | weekFromSunday
  | weekFromMonday
  | isoWeek
  | daysFromSunday
  | dayFromMonday
  | ordinal
  | hour
  | hourOfHalf
  | minute
  | second
  | nano
  | timestamp
  deriving DecidableEq, Repr

/-- The texts that a format may ask for. -/
inductive TextField where
  | shortMonth
  | longMonth
  | shortDay
  | longDay
  | lowerHalf
  | upperHalf
  | fraction
  | fractionOf (digits : Nat)
  | digitsOf (digits : Nat)
  | zoneName
  | offset
  | offsetColon
  | offsetSeconds
  | offsetHours
  | stamp
  deriving DecidableEq, Repr

inductive FormatItem where
  | literal (text : List Char)
  | number (field : NumberField) (pad : Pad)
  | text (field : TextField)
  deriving DecidableEq, Repr

open FormatItem in
/-- The items of a format letter. -/
def itemsOf? (letter : Char) : Option (List FormatItem) :=
  let zero (field : NumberField) := number field .zero
  let dash := literal ['-']
  let slash := literal ['/']
  let colon := literal [':']
  let space := literal [' ']
  let clock := [zero .hour, colon, zero .minute, colon, zero .second]
  match letter with
  | 'A' => some [text .longDay]
  | 'B' => some [text .longMonth]
  | 'C' => some [zero .century]
  | 'D' | 'x' => some [zero .month, slash, zero .day, slash, zero .yearOfCentury]
  | 'F' => some [zero .year, dash, zero .month, dash, zero .day]
  | 'G' => some [zero .isoYear]
  | 'H' => some [zero .hour]
  | 'I' => some [zero .hourOfHalf]
  | 'M' => some [zero .minute]
  | 'P' => some [text .lowerHalf]
  | 'R' => some [zero .hour, colon, zero .minute]
  | 'S' => some [zero .second]
  | 'T' | 'X' => some clock
  | 'U' => some [zero .weekFromSunday]
  | 'V' => some [zero .isoWeek]
  | 'W' => some [zero .weekFromMonday]
  | 'Y' => some [zero .year]
  | 'Z' => some [text .zoneName]
  | 'a' => some [text .shortDay]
  | 'b' | 'h' => some [text .shortMonth]
  | 'c' =>
    some ([text .shortDay, space, text .shortMonth, space, number .day .space, space] ++ clock ++
      [space, zero .year])
  | 'd' => some [zero .day]
  | 'e' => some [number .day .space]
  | 'f' => some [zero .nano]
  | 'g' => some [zero .isoYearOfCentury]
  | 'j' => some [zero .ordinal]
  | 'k' => some [number .hour .space]
  | 'l' => some [number .hourOfHalf .space]
  | 'm' => some [zero .month]
  | 'n' => some [literal ['\n']]
  | 'p' => some [text .upperHalf]
  | 'q' => some [number .quarter .none]
  | 'r' =>
    some [zero .hourOfHalf, colon, zero .minute, colon, zero .second, space, text .upperHalf]
  | 's' => some [number .timestamp .none]
  | 't' => some [literal ['\t']]
  | 'u' => some [number .dayFromMonday .none]
  | 'v' => some [number .day .space, dash, text .shortMonth, dash, zero .year]
  | 'w' => some [number .daysFromSunday .none]
  | 'y' => some [zero .yearOfCentury]
  | 'z' => some [text .offset]
  | '+' => some [text .stamp]
  | '%' => some [literal ['%']]
  | _ => none

/-- Reads the items behind a percent sign that has no padding mark. -/
def readSpecifier : List Char → Option (List FormatItem × List Char)
  | ':' :: ':' :: ':' :: 'z' :: rest => some ([.text .offsetHours], rest)
  | ':' :: ':' :: 'z' :: rest => some ([.text .offsetSeconds], rest)
  | ':' :: 'z' :: rest => some ([.text .offsetColon], rest)
  | '.' :: 'f' :: rest => some ([.text .fraction], rest)
  | '.' :: '3' :: 'f' :: rest => some ([.text (.fractionOf 3)], rest)
  | '.' :: '6' :: 'f' :: rest => some ([.text (.fractionOf 6)], rest)
  | '.' :: '9' :: 'f' :: rest => some ([.text (.fractionOf 9)], rest)
  | '3' :: 'f' :: rest => some ([.text (.digitsOf 3)], rest)
  | '6' :: 'f' :: rest => some ([.text (.digitsOf 6)], rest)
  | '9' :: 'f' :: rest => some ([.text (.digitsOf 9)], rest)
  | c :: rest => (itemsOf? c).map fun items => (items, rest)
  | [] => none

/-- The padding that a mark behind the percent sign asks for. -/
def padOf? (c : Char) : Option Pad :=
  match c with
  | '-' => some .none
  | '0' => some .zero
  | '_' => some .space
  | _ => none

/-- Reads the items behind a percent sign. A padding mark may only stand before a single number. -/
def readDirective : List Char → Option (List FormatItem × List Char)
  | [] => none
  | c :: rest =>
    match padOf? c with
    | none => readSpecifier (c :: rest)
    | some pad =>
      match readSpecifier rest with
      | some ([.number field _], left) => some ([.number field pad], left)
      | _ => none

/-- The items of a format. There are none for a format with an unknown specifier. -/
def formatItems? (cs : List Char) : Option (List FormatItem) :=
  match cs with
  | [] => some []
  | c :: rest =>
    if c = '%' then
      match readDirective rest with
      | none => none
      | some (items, left) =>
        if left.length < rest.length then (formatItems? left).map (items ++ ·) else none
    else (formatItems? rest).map (.literal [c] :: ·)
termination_by cs.length

/-- A number of at least `width` characters. -/
def padded (width : Nat) (pad : Pad) (n : Int) (signed : Bool) : List Char :=
  let sign := if n < 0 then ['-'] else if signed then ['+'] else []
  let digits := Decimal.digitChars n.natAbs
  let missing := width - (sign.length + digits.length)
  match pad with
  | .none => sign ++ digits
  | .zero => sign ++ List.replicate missing '0' ++ digits
  | .space => List.replicate missing ' ' ++ sign ++ digits

/-- A number below 256 in two characters. The tens of a number from 100 on go on in the characters
behind the digits. -/
def twoChars (pad : Pad) (n : Nat) : List Char :=
  let ones := Decimal.digitChar (n % 10)
  if n < 10 then
    match pad with
    | .none => [ones]
    | .zero => ['0', ones]
    | .space => [' ', ones]
  else [Decimal.digitChar (n / 10), ones]

/-- A year in four digits. A year with fewer or more places than that has its sign before it. -/
def yearChars (pad : Pad) (year : Int) : List Char :=
  if 0 ≤ year ∧ year < 10000 then padded 4 pad year false else padded 5 pad year true

/-- The last byte of a number. -/
def lowByte (n : Int) : Nat :=
  (n % 256).toNat

namespace Moment

def hour (m : Moment) : Nat :=
  m.second / 3600

def minute (m : Moment) : Nat :=
  m.second / 60 % 60

/-- The second of the minute, which is 60 in a leap second. -/
def secondOfMinute (m : Moment) : Nat :=
  m.second % 60 + m.nano / 1000000000

def hourOfHalf (m : Moment) : Nat :=
  if m.hour % 12 = 0 then 12 else m.hour % 12

def isAfternoon (m : Moment) : Bool :=
  12 ≤ m.hour

def subsecond (m : Moment) : Nat :=
  m.nano % 1000000000

def numberChars (m : Moment) (pad : Pad) : NumberField → List Char
  | .year => yearChars pad m.date.year
  | .century => twoChars pad (lowByte (m.date.year / 100))
  | .yearOfCentury => twoChars pad (m.date.year % 100).toNat
  | .isoYear => yearChars pad m.date.isoWeek.1
  | .isoYearOfCentury => twoChars pad (m.date.isoWeek.1 % 100).toNat
  | .quarter => [Decimal.digitChar ((m.date.month - 1) / 3 + 1)]
  | .month => twoChars pad m.date.month
  | .day => twoChars pad m.date.day
  | .weekFromSunday => twoChars pad (m.date.weekFrom m.date.fromSunday)
  | .weekFromMonday => twoChars pad (m.date.weekFrom m.date.fromMonday)
  | .isoWeek => twoChars pad m.date.isoWeek.2
  | .daysFromSunday => [Decimal.digitChar m.date.fromSunday]
  | .dayFromMonday => [Decimal.digitChar (m.date.fromMonday + 1)]
  | .ordinal => padded 3 pad m.date.ordinal false
  | .hour => twoChars pad m.hour
  | .hourOfHalf => twoChars pad m.hourOfHalf
  | .minute => twoChars pad m.minute
  | .second => twoChars pad m.secondOfMinute
  | .nano => padded 9 pad m.subsecond false
  | .timestamp => padded 9 pad m.timestamp false

/-- The leading digits of the fraction of the second. -/
def fractionDigits (m : Moment) (digits : Nat) : List Char :=
  padded digits .zero (m.subsecond / Nat.pow 10 (9 - digits) : Nat) false

/-- The fraction of the second in as many groups of three digits as it needs. -/
def fractionChars (m : Moment) : List Char :=
  if m.subsecond = 0 then []
  else if m.subsecond % 1000000 = 0 then '.' :: m.fractionDigits 3
  else if m.subsecond % 1000 = 0 then '.' :: m.fractionDigits 6
  else '.' :: m.fractionDigits 9

/-- The date and the time with the offset of universal time. -/
def stampChars (m : Moment) : List Char :=
  yearChars .zero m.date.year ++ '-' :: twoChars .zero m.date.month ++ '-' ::
    twoChars .zero m.date.day ++ 'T' :: twoChars .zero m.hour ++ ':' :: twoChars .zero m.minute ++
    ':' :: twoChars .zero m.secondOfMinute ++ m.fractionChars ++ "+00:00".toList

def textChars (m : Moment) : TextField → List Char
  | .shortMonth => m.date.monthName.toList.take 3
  | .longMonth => m.date.monthName.toList
  | .shortDay => m.date.dayName.toList.take 3
  | .longDay => m.date.dayName.toList
  | .lowerHalf => if m.isAfternoon then ['p', 'm'] else ['a', 'm']
  | .upperHalf => if m.isAfternoon then ['P', 'M'] else ['A', 'M']
  | .fraction => m.fractionChars
  | .fractionOf digits => '.' :: m.fractionDigits digits
  | .digitsOf digits => m.fractionDigits digits
  | .zoneName => "UTC".toList
  | .offset => "+0000".toList
  | .offsetColon => "+00:00".toList
  | .offsetSeconds => "+00:00:00".toList
  | .offsetHours => "+00".toList
  | .stamp => m.stampChars

def itemChars (m : Moment) : FormatItem → List Char
  | .literal text => text
  | .number field pad => m.numberChars pad field
  | .text field => m.textChars field

/-- A moment in a format. There is no text for a format with an unknown specifier. -/
def format? (m : Moment) (format : String) : Option String :=
  (formatItems? format.toList).map fun items => String.ofList (items.flatMap m.itemChars)

end Moment

end RecordQuery.Calendar
