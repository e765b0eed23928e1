import RecordQuery.Text.Hexadecimal
import RecordQuery.Text.Natural

namespace RecordQuery.Toml

inductive Token where
  | newline
  | word (cs : List Char)
  | text (s : String)
  | longText (s : String)
  | openBracket
  | closeBracket
  | openBrace
  | closeBrace
  | comma
  | equals
  deriving DecidableEq, Repr

/-- What stands between a token and the one before it: nothing, one space, or other blanks. -/
inductive Gap where
  | closed
  | space
  | wide
  deriving DecidableEq, Repr

/-- A gap with one more blank at its end. -/
def Gap.grown (gap : Gap) (blank : Char) : Gap :=
  if gap = .closed ∧ blank = ' ' then .space else .wide

/-- A token and the gap in front of it. -/
structure Piece where
  token : Token
  gap : Gap

/-- Whether a character may stand in comments and texts of one line. -/
def isPrintable (c : Char) : Bool :=
  c == '\t' || (0x20 ≤ c.toNat && c.toNat != 0x7F)

/-- Whether a character belongs to a word: a bare key, a number, a truth or a time. -/
def inWord (c : Char) : Bool :=
  c.isAlphanum || c == '_' || c == '-' || c == '+' || c == '.' || c == ':'

/-- The character of a code in hexadecimal digits. -/
def coded? (digits : List Char) : Option Char := do
  let n ← Text.hexNumber? digits
  if n.isValidChar then some (Char.ofNat n) else none

/-- The character behind a backslash, and what follows it. -/
def escape? : List Char → Option (Char × List Char)
  | 'b' :: rest => some ('\x08', rest)
  | 't' :: rest => some ('\t', rest)
  | 'n' :: rest => some ('\n', rest)
  | 'f' :: rest => some ('\x0c', rest)
  | 'r' :: rest => some ('\r', rest)
  | '"' :: rest => some ('"', rest)
  | '\\' :: rest => some ('\\', rest)
  | 'u' :: rest =>
    if rest.length < 4 then none else (coded? (rest.take 4)).map fun c => (c, rest.drop 4)
  | 'U' :: rest =>
    if rest.length < 8 then none else (coded? (rest.take 8)).map fun c => (c, rest.drop 8)
  | _ => none

theorem escape?_length_lt {cs rest : List Char} {c : Char} (read : escape? cs = some (c, rest)) :
    rest.length < cs.length := by
  unfold escape? at read
  split at read
  case h_8 =>
    split at read
    · simp at read
    · obtain ⟨d, _, same⟩ := Option.map_eq_some_iff.mp read
      simp only [Prod.mk.injEq] at same
      rw [← same.2, List.length_drop, List.length_cons]
      omega
  case h_9 =>
    split at read
    · simp at read
    · obtain ⟨d, _, same⟩ := Option.map_eq_some_iff.mp read
      simp only [Prod.mk.injEq] at same
      rw [← same.2, List.length_drop, List.length_cons]
      omega
  all_goals simp_all

/-- Reads a text between double quotes up to the closing one. -/
def readText (cs : List Char) : Option (List Char × List Char) :=
  match cs with
  | [] => none
  | c :: rest =>
    if c = '"' then some ([], rest)
    else if c = '\\' then
      match _ : escape? rest with
      | none => none
      | some (d, after) => (readText after).map fun (ds, left) => (d :: ds, left)
    else if isPrintable c then (readText rest).map fun (ds, left) => (c :: ds, left)
    else none
termination_by cs.length
decreasing_by
  · have := escape?_length_lt ‹_›
    simp only [List.length_cons]
    omega
  · simp

/-- Reads a text between single quotes up to the closing one. -/
def readLiteral : List Char → Option (List Char × List Char)
  | [] => none
  | c :: rest =>
    if c = '\'' then some ([], rest)
    else if isPrintable c then (readLiteral rest).map fun (ds, left) => (c :: ds, left)
    else none

/-- The end of a text of many lines: three quotes, with up to two more that belong to it. -/
def closing? (quote : Char) (cs : List Char) : Option (List Char × List Char) :=
  let run := cs.takeWhile (· == quote)
  if 3 ≤ run.length ∧ run.length ≤ 5 then
    some (List.replicate (run.length - 3) quote, cs.drop run.length)
  else none

/-- A text without the blanks and the line breaks at its front. -/
def skipLines : List Char → List Char
  | [] => []
  | '\r' :: '\n' :: rest => skipLines rest
  | c :: rest => if c = ' ' ∨ c = '\t' ∨ c = '\n' then skipLines rest else c :: rest

theorem skipLines_length_le (cs : List Char) : (skipLines cs).length ≤ cs.length := by
  fun_induction skipLines cs with
  | case1 => exact Nat.le_refl _
  | case2 rest ih => exact Nat.le_succ_of_le (Nat.le_succ_of_le ih)
  | case3 c rest _ _ ih => exact Nat.le_succ_of_le ih
  | case4 c rest _ _ => exact Nat.le_refl _

/-- What follows a backslash that ends its line: the text goes on with the next character that is
no blank. -/
def joinedLine? (cs : List Char) : Option (List Char) :=
  match cs.dropWhile fun c => c == ' ' || c == '\t' with
  | '\n' :: rest => some (skipLines rest)
  | '\r' :: '\n' :: rest => some (skipLines rest)
  | _ => none

theorem joinedLine?_length_lt {cs rest : List Char} (read : joinedLine? cs = some rest) :
    rest.length < cs.length := by
  have blanks := (List.dropWhile_sublist (l := cs) fun c => c == ' ' || c == '\t').length_le
  unfold joinedLine? at read
  split at read
  · rename_i tail atLine
    have gap := skipLines_length_le tail
    simp only [Option.some.injEq] at read
    rw [atLine, List.length_cons] at blanks
    rw [← read]
    omega
  · rename_i tail atLine
    have gap := skipLines_length_le tail
    simp only [Option.some.injEq] at read
    rw [atLine, List.length_cons, List.length_cons] at blanks
    rw [← read]
    omega
  · simp at read

/-- Reads a text of many lines between double quotes. -/
def readLongText (cs : List Char) : Option (List Char × List Char) :=
  match closing? '"' cs with
  | some ended => some ended
  | none =>
    match cs with
    | [] => none
    | c :: rest =>
      if c = '\\' then
        match _ : escape? rest with
        | some (d, after) => (readLongText after).map fun (ds, left) => (d :: ds, left)
        | none =>
          match _ : joinedLine? rest with
          | some after => readLongText after
          | none => none
      else if c = '"' ∧ rest.take 5 = List.replicate 5 '"' then none
      else if c = '\r' then
        match rest with
        | '\n' :: after => (readLongText after).map fun (ds, left) => ('\n' :: ds, left)
        | _ => none
      else if c = '\n' ∨ isPrintable c then
        (readLongText rest).map fun (ds, left) => (c :: ds, left)
      else none
termination_by cs.length
decreasing_by
  · have := escape?_length_lt ‹_›
    simp only [List.length_cons]
    omega
  · have := joinedLine?_length_lt ‹_›
    simp only [List.length_cons]
    omega
  · exact Nat.lt_succ_of_lt (Nat.lt_succ_self _)
  · exact Nat.lt_succ_self _

/-- Reads a text of many lines between single quotes. -/
def readLongLiteral (cs : List Char) : Option (List Char × List Char) :=
  match closing? '\'' cs with
  | some ended => some ended
  | none =>
    match cs with
    | [] => none
    | '\r' :: '\n' :: rest => (readLongLiteral rest).map fun (ds, left) => ('\n' :: ds, left)
    | c :: rest =>
      if c = '\'' ∧ rest.take 5 = List.replicate 5 '\'' then none
      else if c = '\n' ∨ isPrintable c then
        (readLongLiteral rest).map fun (ds, left) => (c :: ds, left)
      else none

/-- A line break right behind the opening quotes does not belong to the text. -/
def withoutBreak : List Char → List Char
  | '\n' :: rest => rest
  | '\r' :: '\n' :: rest => rest
  | cs => cs

/-- Reads the token at the front of a text that begins with no blank and no comment. -/
def readToken : List Char → Option (Token × List Char)
  | '\n' :: rest => some (.newline, rest)
  | '\r' :: '\n' :: rest => some (.newline, rest)
  | '[' :: rest => some (.openBracket, rest)
  | ']' :: rest => some (.closeBracket, rest)
  | '\x7b' :: rest => some (.openBrace, rest)
  | '\x7d' :: rest => some (.closeBrace, rest)
  | ',' :: rest => some (.comma, rest)
  | '=' :: rest => some (.equals, rest)
  | '"' :: '"' :: '"' :: rest =>
    (readLongText (withoutBreak rest)).map fun (cs, left) => (.longText (String.ofList cs), left)
  | '"' :: rest => (readText rest).map fun (cs, left) => (.text (String.ofList cs), left)
  | '\'' :: '\'' :: '\'' :: rest =>
    (readLongLiteral (withoutBreak rest)).map fun (cs, left) =>
      (.longText (String.ofList cs), left)
  | '\'' :: rest => (readLiteral rest).map fun (cs, left) => (.text (String.ofList cs), left)
  | cs =>
    let word := cs.takeWhile inWord
    if word.isEmpty then none else some (.word word, cs.drop word.length)

/-- The pieces of a text. Comments reach to the end of their lines. A token that leaves nothing of
its text behind cannot occur, so giving up there loses nothing. -/
def pieces? (gap : Gap) (cs : List Char) : Option (List Piece) :=
  match cs with
  | [] => some []
  | c :: rest =>
    if c = ' ' ∨ c = '\t' then pieces? (gap.grown c) rest
    else if c = '#' then
      match _ : rest.dropWhile isPrintable with
      | [] => some []
      | '\n' :: after => pieces? .wide ('\n' :: after)
      | '\r' :: '\n' :: after => pieces? .wide ('\n' :: after)
      | _ => none
    else
      match readToken (c :: rest) with
      | none => none
      | some (token, left) =>
        if _shorter : left.length < (c :: rest).length then
          (pieces? .closed left).map (⟨token, gap⟩ :: ·)
        else none
termination_by cs.length
decreasing_by
  · exact Nat.lt_succ_self _
  · have bound := (List.dropWhile_sublist (l := rest) isPrintable).length_le
    rw [‹rest.dropWhile isPrintable = _›] at bound
    exact Nat.lt_succ_of_le bound
  · have bound := (List.dropWhile_sublist (l := rest) isPrintable).length_le
    rw [‹rest.dropWhile isPrintable = _›] at bound
    exact Nat.lt_succ_of_le (Nat.le_of_succ_le bound)
  · exact _shorter

end RecordQuery.Toml
