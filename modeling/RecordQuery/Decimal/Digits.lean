import RecordQuery.Text.Natural

namespace RecordQuery.Decimal

open Text (isDigit)

/-- The digit of a number below ten. -/
def digitChar (n : Nat) : Char :=
  Char.ofNat (48 + n)

def digitValue (c : Char) : Nat :=
  c.toNat - 48

/-- The decimal digits of a number, without leading zeros. -/
def digitChars (n : Nat) : List Char :=
  if n < 10 then [digitChar n] else digitChars (n / 10) ++ [digitChar (n % 10)]

/-- The number that digits denote, leading zeros allowed. -/
def valueOf (digits : List Char) : Nat :=
  digits.foldl (fun n c => 10 * n + digitValue c) 0

/-- Whether a text is a non-empty run of digits. -/
def isNatural (cs : List Char) : Bool :=
  !cs.isEmpty && cs.all isDigit

def integerChars (n : Int) : List Char :=
  if n < 0 then '-' :: digitChars n.natAbs else digitChars n.natAbs

end RecordQuery.Decimal
