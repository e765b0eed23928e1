import RecordQuery.Text.Case

namespace RecordQuery.Text

def isDigit (c : Char) : Bool :=
  '0' ≤ c && c ≤ '9'

/-- The digits that a text begins with. -/
def digitRun (cs : List Char) : List Char :=
  cs.takeWhile isDigit

def afterDigits (cs : List Char) : List Char :=
  cs.dropWhile isDigit

theorem afterDigits_length_le (cs : List Char) : (afterDigits cs).length ≤ cs.length :=
  (List.dropWhile_sublist _).length_le

def significant (digits : List Char) : List Char :=
  digits.dropWhile (· == '0')

/-- Characters are ordered by code point, texts of characters lexicographically. -/
def compareChars (a b : List Char) : Ordering :=
  match a, b with
  | [], [] => .eq
  | [], _ :: _ => .lt
  | _ :: _, [] => .gt
  | c :: as, d :: bs => (compare c.toNat d.toNat).then (compareChars as bs)

/-- Digit runs are ordered by the number they denote: the longer run of significant digits is the
larger number, and of equally long runs the lexicographically larger one. Runs of one number are
ordered by their leading zeros. -/
def compareRuns (a b : List Char) : Ordering :=
  (compare (significant a).length (significant b).length).then
    ((compareChars (significant a) (significant b)).then (compare a.length b.length))

/-- Natural order on lower-cased texts: digit runs that meet are compared as numbers, all other
characters by code point. -/
def compareNatural (a b : List Char) : Ordering :=
  match a, b with
  | [], [] => .eq
  | [], _ :: _ => .lt
  | _ :: _, [] => .gt
  | c :: as, d :: bs =>
    if isDigit c && isDigit d then
      (compareRuns (digitRun (c :: as)) (digitRun (d :: bs))).then
        (compareNatural (afterDigits as) (afterDigits bs))
    else if c = d then compareNatural as bs
    else compare c.toNat d.toNat
termination_by a.length
decreasing_by
  · have := afterDigits_length_le as
    simp only [List.length_cons]
    omega
  · simp

/-- Natural order on texts, in which upper and lower case are one. -/
def naturalOrder (a b : String) : Ordering :=
  compareNatural (lower a).toList (lower b).toList

end RecordQuery.Text
