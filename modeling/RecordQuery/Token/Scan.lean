import RecordQuery.FieldPath
import RecordQuery.Token

namespace RecordQuery.Token

/-- The blanks between tokens. -/
def isSpace (c : Char) : Bool :=
  c == ' ' || c == '\t' || c == '\r' || c == '\n'

/-- Whether a bare name may begin with a character. -/
def startsName (c : Char) : Bool :=
  c.isAlpha || c == '_' || c == '$' || c == '@'

/-- Whether a bare name may go on with a character. -/
def inName (c : Char) : Bool :=
  c.isAlphanum || c == '_' || c == '$' || c == '@'

/-- The number of leading characters that satisfy `p`. -/
def runLength (p : Char → Bool) (cs : List Char) : Nat :=
  (cs.takeWhile p).length

/-- The length of a mark of iteration at the front. -/
def markLength : List Char → Nat
  | '[' :: ']' :: _ => 2
  | _ => 0

/-- The length of a name that began with a backtick, its last backtick included. -/
def backtickLength? (cs : List Char) : Option Nat :=
  let name := runLength (fun c => !FieldPath.isBacktick c) cs
  if name < cs.length then some (name + 1) else none

/-- The length of the steps of a path or a locator: points with names behind them, and marks of
iteration where they are allowed. There is none when a backtick is never closed. -/
def stepsLength? (marked : Bool) (cs : List Char) : Option Nat :=
  match cs with
  | '.' :: c :: rest =>
    if FieldPath.isBacktick c then
      match backtickLength? rest with
      | none => none
      | some name =>
        let mark := if marked then markLength (rest.drop name) else 0
        (stepsLength? marked (rest.drop (name + mark))).map (2 + name + mark + ·)
    else if inName c then
      let name := runLength inName rest
      let mark := if marked then markLength (rest.drop name) else 0
      (stepsLength? marked (rest.drop (name + mark))).map (2 + name + mark + ·)
    else some 0
  | _ => some 0
termination_by cs.length
decreasing_by
  all_goals
    simp only [List.length_drop, List.length_cons]
    omega

/-- The length of the text behind a quote, up to the closing one if there is one. A backslash takes
the next character with it unless that ends the line. -/
def quotedLength (quote : Char) : List Char → Nat × Bool
  | [] => (0, false)
  | '\\' :: c :: rest =>
    if c = '\n' then (0, false)
    else
      let (length, closed) := quotedLength quote rest
      (length + 2, closed)
  | c :: rest =>
    if c = quote then (1, true)
    else if c = '\\' then (0, false)
    else
      let (length, closed) := quotedLength quote rest
      (length + 1, closed)

/-- The length of the fraction of a number. -/
def fractionLength : List Char → Nat
  | '.' :: rest =>
    let digits := runLength Text.isDigit rest
    if digits = 0 then 0 else digits + 1
  | _ => 0

/-- The length of the exponent of a number. -/
def exponentLength : List Char → Nat
  | c :: rest =>
    if c = 'e' ∨ c = 'E' then
      let sign := match rest with
        | '+' :: _ => 1
        | '-' :: _ => 1
        | _ => 0
      let digits := runLength Text.isDigit (rest.drop sign)
      if digits = 0 then 0 else 1 + sign + digits
    else 0
  | [] => 0

/-- The length of a number behind its sign and its first digit. -/
def numberLength (cs : List Char) : Nat :=
  let whole := runLength Text.isDigit cs
  let fraction := fractionLength (cs.drop whole)
  whole + fraction + exponentLength (cs.drop (whole + fraction))

/-- A token of the first character and of so many characters behind it. -/
def ofChars (make : String → Token) (c : Char) (rest : List Char) (more : Nat) : Token × Nat :=
  (make (String.ofList (c :: rest.take more)), more)

/-- An unknown token that reaches to the end. -/
def unknownToEnd (c : Char) (rest : List Char) : Token × Nat :=
  ofChars .unknown c rest rest.length

/-- A path whose first component has been read. -/
def scanSteps (c : Char) (rest : List Char) (name : Nat) : Token × Nat :=
  let name := name + markLength (rest.drop name)
  match stepsLength? true (rest.drop name) with
  | some steps => ofChars .path c rest (name + steps)
  | none => unknownToEnd c rest

/-- A name is a keyword unless it goes on like a path. -/
def scanName (c : Char) (rest : List Char) : Token × Nat :=
  let name := runLength inName rest
  match rest.drop name with
  | '.' :: _ => scanSteps c rest name
  | '[' :: _ => scanSteps c rest name
  | _ =>
    match Keyword.ofText? (String.ofList (c :: rest.take name)) with
    | some k => (.keyword k, name)
    | none => ofChars .path c rest name

/-- A locator behind its closed brackets. -/
def scanPlace (c : Char) (rest : List Char) (brackets : Nat) : Token × Nat :=
  let close := match rest.drop brackets with
    | '(' :: inside =>
      let path := runLength (fun d => d != ')') inside
      if path < inside.length then some (path + 2) else none
    | _ => some 0
  match close with
  | none => unknownToEnd c rest
  | some parens =>
    match stepsLength? false (rest.drop (brackets + parens)) with
    | some steps => ofChars .locator c rest (brackets + parens + steps)
    | none => unknownToEnd c rest

/-- Whether a character may stand in the brackets of a locator. -/
def inBrackets (c : Char) : Bool :=
  c.isAlphanum || c == '_' || c == '-'

def scanLocator (c : Char) (rest : List Char) : Token × Nat :=
  let format := runLength inBrackets rest
  match rest.drop format with
  | ']' :: _ => scanPlace c rest (format + 1)
  | _ => ofChars .unknown c rest format

/-- The token that begins with the character `c`, and the number of characters behind it that
belong to the token. -/
def scan (c : Char) (rest : List Char) : Token × Nat :=
  match c, rest with
  | '=', '=' :: _ => (.sign .strictEqual, 1)
  | '=', _ => (.sign .equal, 0)
  | '!', '=' :: '=' :: _ => (.sign .notStrictEqual, 2)
  | '!', '=' :: _ => (.sign .notEqual, 1)
  | '<', '>' :: _ => (.sign .lessGreater, 1)
  | '<', '=' :: _ => (.sign .lessOrEqual, 1)
  | '<', _ => (.sign .less, 0)
  | '>', '=' :: _ => (.sign .greaterOrEqual, 1)
  | '>', _ => (.sign .greater, 0)
  | '(', _ => (.sign .openParen, 0)
  | ')', _ => (.sign .closeParen, 0)
  | ',', _ => (.sign .comma, 0)
  | '*', _ => (.sign .star, 0)
  | '[', _ => scanLocator c rest
  | '-', d :: after =>
    if Text.isDigit d then ofChars .number c rest (numberLength after + 1)
    else ofChars .unknown c rest 0
  | _, _ =>
    if c = '"' ∨ c = '\'' then
      let (length, closed) := quotedLength c rest
      ofChars (if closed then .quoted else .unterminated) c rest length
    else if Text.isDigit c then ofChars .number c rest (numberLength rest)
    else if FieldPath.isBacktick c then
      match backtickLength? rest with
      | some name => scanSteps c rest name
      | none => unknownToEnd c rest
    else if startsName c then scanName c rest
    else ofChars .unknown c rest 0

theorem scanPlace_ne_call (c : Char) (rest : List Char) (brackets : Nat) (name : String)
    (arguments : List String) : (scanPlace c rest brackets).1 ≠ .call name arguments := by
  unfold scanPlace
  dsimp only
  split
  · simp [unknownToEnd, ofChars]
  · split <;> simp [unknownToEnd, ofChars]

theorem scanSteps_ne_call (c : Char) (rest : List Char) (length : Nat) (name : String)
    (arguments : List String) : (scanSteps c rest length).1 ≠ .call name arguments := by
  unfold scanSteps
  dsimp only
  split <;> simp [unknownToEnd, ofChars]

theorem scan_ne_call (c : Char) (rest : List Char) (name : String) (arguments : List String) :
    (scan c rest).1 ≠ .call name arguments := by
  unfold scan
  split
  case h_14 =>
    unfold scanLocator
    dsimp only
    split
    · exact scanPlace_ne_call _ _ _ _ _
    · simp [ofChars]
  case h_15 => split <;> simp [ofChars]
  case h_16 =>
    split
    · dsimp only
      split <;> simp [ofChars]
    split
    · simp [ofChars]
    split
    · split
      · exact scanSteps_ne_call _ _ _ _ _
      · simp [unknownToEnd, ofChars]
    split
    · unfold scanName
      dsimp only
      split
      · exact scanSteps_ne_call _ _ _ _ _
      · exact scanSteps_ne_call _ _ _ _ _
      · split <;> simp [ofChars]
    · simp [ofChars]
  all_goals simp

end RecordQuery.Token
