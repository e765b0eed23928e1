namespace RecordQuery.Text

/-- Whether `part` stands somewhere in a text. -/
def containsChars (part : List Char) : List Char → Bool
  | [] => part.isEmpty
  | c :: rest => part.isPrefixOf (c :: rest) || containsChars part rest

/-- The pieces between the places where a separator stands, found from left to right. The piece
being read is kept reversed, and `skip` counts the characters of a separator still to pass. -/
def splitFrom (separator : List Char) (piece : List Char) (skip : Nat) :
    List Char → List (List Char)
  | [] => [piece.reverse]
  | c :: rest =>
    match skip with
    | n + 1 => splitFrom separator piece n rest
    | 0 =>
      if separator.isPrefixOf (c :: rest) then
        piece.reverse :: splitFrom separator [] (separator.length - 1) rest
      else splitFrom separator (c :: piece) 0 rest

/-- The pieces of a text between the places where a separator stands. An empty separator stands
before and behind every character. -/
def splitChars (separator text : List Char) : List (List Char) :=
  if separator.isEmpty then [] :: text.map (fun c => [c]) ++ [[]]
  else splitFrom separator [] 0 text

/-- The text before the first character that satisfies `p`, and the text after it if there is
one. -/
def splitAtFirst (p : Char → Bool) (cs : List Char) : List Char × Option (List Char) :=
  match cs.dropWhile (fun c => !p c) with
  | [] => (cs, none)
  | _ :: rest => (cs.takeWhile (fun c => !p c), some rest)

/-- Pieces put together with a separator between them. -/
def joinChars (separator : List Char) : List (List Char) → List Char
  | [] => []
  | [piece] => piece
  | piece :: next :: rest => piece ++ separator ++ joinChars separator (next :: rest)

/-- The text with `new` in every place where `old` stands. Nothing is replaced for an empty one. -/
def replaceChars (old new text : List Char) : List Char :=
  if old.isEmpty then text else joinChars new (splitChars old text)

def join (separator : String) (pieces : List String) : String :=
  String.ofList (joinChars separator.toList (pieces.map String.toList))

end RecordQuery.Text
