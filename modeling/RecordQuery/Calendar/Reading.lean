import RecordQuery.Calendar.Date
import RecordQuery.Decimal.Digits
import RecordQuery.Number
import RecordQuery.Text.Blank

namespace RecordQuery.Calendar

/-- Reads digits, at least one and at most `most`. -/
def readDigits (most : Nat) (cs : List Char) : Option (Nat × List Char) :=
  let digits := (Text.digitRun cs).take most
  if digits.isEmpty then none else some (Decimal.valueOf digits, cs.drop digits.length)

/-- Reads exactly so many digits. -/
def readExactly (count : Nat) (cs : List Char) : Option (Nat × List Char) :=
  let digits := (Text.digitRun cs).take count
  if digits.length = count then some (Decimal.valueOf digits, cs.drop count) else none

def expect (c : Char) : List Char → Option (List Char)
  | [] => none
  | d :: rest => if d = c then some rest else none

/-- Reads a point and a fraction of a second. Digits behind the ninth are passed over. -/
def readFraction (cs : List Char) : Option (Nat × List Char) :=
  match cs with
  | '.' :: rest =>
    let digits := Text.digitRun rest
    if digits.isEmpty then none
    else
      some (Decimal.valueOf ((digits ++ List.replicate 9 '0').take 9), Text.afterDigits rest)
  | _ => some (0, cs)

/-- Reads an offset from universal time in seconds: a Z, or a sign, hours, a colon and minutes. The
minus sign may also be the one of mathematics. -/
def readOffset (cs : List Char) : Option (Int × List Char) :=
  match cs with
  | [] => none
  | c :: rest =>
    if c = 'Z' ∨ c = 'z' then some (0, rest)
    else if c = '+' ∨ c = '-' ∨ c.toNat = 0x2212 then do
      let (hours, rest) ← readExactly 2 rest
      let rest ← expect ':' rest
      let (minutes, rest) ← readExactly 2 rest
      if hours < 24 ∧ minutes < 60 then
        let seconds : Int := 3600 * hours + 60 * minutes
        pure (if c = '+' then seconds else -seconds, rest)
      else none
    else none

/-- The second of the day and the nanoseconds of a time. A second number 60 is a leap second. -/
def timeOf? (hour minute second nano : Nat) : Option (Nat × Nat) :=
  if hour < 24 ∧ minute < 60 ∧ second ≤ 60 then
    let start := 3600 * hour + 60 * minute
    some (if second = 60 then (start + 59, nano + 1000000000) else (start + second, nano))
  else none

/-- Reads a date and a time with an offset: every number has its full width, and a blank may stand
in place of the T between date and time. -/
def readStamp? (cs : List Char) : Option Moment := do
  let (year, cs) ← readExactly 4 cs
  let cs ← expect '-' cs
  let (month, cs) ← readExactly 2 cs
  let cs ← expect '-' cs
  let (day, cs) ← readExactly 2 cs
  let cs ← match cs with
    | c :: rest => if c = 'T' ∨ c = 't' ∨ c = ' ' then some rest else none
    | [] => none
  let (hour, cs) ← readExactly 2 cs
  let cs ← expect ':' cs
  let (minute, cs) ← readExactly 2 cs
  let cs ← expect ':' cs
  let (second, cs) ← readExactly 2 cs
  let (nano, cs) ← readFraction cs
  let (offset, cs) ← readOffset cs
  let date ← Date.make? year month day
  let (second, nano) ← timeOf? hour minute second nano
  if cs.isEmpty then some (Moment.ofLocal date second nano offset) else none

/-- Reads a number of at most `width` digits behind any blanks. -/
def readField (width : Nat) (cs : List Char) : Option (Nat × List Char) :=
  readDigits width (Text.dropBlanks cs)

/-- Reads a year behind any blanks: four digits at most, or any number of them behind a sign. -/
def readYear (cs : List Char) : Option (Int × List Char) :=
  match Text.dropBlanks cs with
  | '-' :: rest => (readDigits rest.length rest).map fun (n, left) => (-(n : Int), left)
  | '+' :: rest => (readDigits rest.length rest).map fun (n, left) => ((n : Int), left)
  | cs => (readDigits 4 cs).map fun (n, left) => ((n : Int), left)

/-- Reads a date of numbers that need not have their full width. -/
def readDate (cs : List Char) : Option (Date × List Char) := do
  let (year, cs) ← readYear cs
  let cs ← expect '-' cs
  let (month, cs) ← readField 2 cs
  let cs ← expect '-' cs
  let (day, cs) ← readField 2 cs
  let date ← Date.make? year month day
  pure (date, cs)

/-- Reads a date and a time of numbers that need not have their full width, in universal time. -/
def readDateTime? (cs : List Char) : Option Moment := do
  let (date, cs) ← readDate cs
  let (hour, cs) ← readField 2 cs
  let cs ← expect ':' cs
  let (minute, cs) ← readField 2 cs
  let cs ← expect ':' cs
  let (second, cs) ← readField 2 cs
  let (second, nano) ← timeOf? hour minute second 0
  if cs.isEmpty then some (Moment.ofLocal date second nano 0) else none

def readDay? (cs : List Char) : Option Moment := do
  let (date, cs) ← readDate cs
  if cs.isEmpty then some (Moment.ofLocal date 0 0 0) else none

/-- Reads a 64-bit integer, with a sign or without. -/
def readInteger? (cs : List Char) : Option Int64 :=
  match cs with
  | '-' :: digits => if Decimal.isNatural digits then int64? (-Decimal.valueOf digits) else none
  | '+' :: digits => if Decimal.isNatural digits then int64? (Decimal.valueOf digits) else none
  | digits => if Decimal.isNatural digits then int64? (Decimal.valueOf digits) else none

/-- The moment that a text denotes, with blanks around it allowed: a date and a time with an
offset, a date and a time, a date, or seconds since the beginning of 1970. -/
def Moment.ofText? (s : String) : Option Moment :=
  let cs := Text.trimChars s.toList
  (readStamp? cs).or <| (readDateTime? cs).or <| (readDay? cs).or <|
    (readInteger? cs).bind fun n => Moment.ofTimestamp? n.toInt

end RecordQuery.Calendar
