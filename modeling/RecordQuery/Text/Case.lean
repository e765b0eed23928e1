import RecordQuery.Text.CaseTable

namespace RecordQuery.Text

def CaseRun.covers (run : CaseRun) (n : Nat) : Bool :=
  run.first ≤ n && n ≤ run.last && (n - run.first) % run.stride == 0

/-- The character a table maps `c` to, which is `c` itself when no run covers it. -/
def shiftCase (runs : List CaseRun) (c : Char) : Char :=
  match runs.find? (fun run => run.covers c.toNat) with
  | some run => Char.ofNat (c.toNat + run.shift).toNat
  | none => c

def inSpans (spans : List (Nat × Nat)) (c : Char) : Bool :=
  spans.any fun span => span.1 ≤ c.toNat && c.toNat ≤ span.2

def isCased (c : Char) : Bool :=
  inSpans casedSpans c

def isCaseIgnorable (c : Char) : Bool :=
  inSpans caseIgnorableSpans c

/-- Whether the first character that counts for casing is a cased one. -/
def meetsCased (cs : List Char) : Bool :=
  match cs.dropWhile isCaseIgnorable with
  | c :: _ => isCased c
  | [] => false

/-- The lower case of one character out of context. -/
def lowerChar (c : Char) : List Char :=
  if c.toNat < 0x80 then [c.toLower]
  else if c.toNat = 0x130 then ['i', Char.ofNat 0x307]
  else [shiftCase lowerRuns c]

/-- Lower-casing with the characters already passed, nearest first. A capital sigma that ends a
word becomes the final form of the small letter. -/
def lowerAfter (before : List Char) : List Char → List Char
  | [] => []
  | c :: rest =>
    (if c.toNat = 0x3A3 then
      [if meetsCased before && !meetsCased rest then Char.ofNat 0x3C2 else Char.ofNat 0x3C3]
    else lowerChar c) ++ lowerAfter (c :: before) rest

def lower (s : String) : String :=
  String.ofList (lowerAfter [] s.toList)

/-- The upper case of one character, which may be more than one. -/
def upperChar (c : Char) : List Char :=
  if c.toNat < 0x80 then [c.toUpper]
  else match upperExpansions.lookup c.toNat with
    | some codes => codes.map Char.ofNat
    | none => [shiftCase upperRuns c]

def upper (s : String) : String :=
  String.ofList (s.toList.flatMap upperChar)

/-- Lower-casing of the ASCII letters alone. -/
def lowerAscii (s : String) : String :=
  String.ofList (s.toList.map Char.toLower)

/-- Upper-casing of the ASCII letters alone. -/
def upperAscii (s : String) : String :=
  String.ofList (s.toList.map Char.toUpper)

end RecordQuery.Text
