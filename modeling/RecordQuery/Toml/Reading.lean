import RecordQuery.Toml.Scalar

namespace RecordQuery.Toml

/-- A part of a key, or a point between two of them. -/
inductive KeyPiece where
  | part (s : String)
  | point
  deriving DecidableEq

/-- Whether a character may stand in a bare part of a key. -/
def inBareKey (c : Char) : Bool :=
  c.isAlphanum || c == '_' || c == '-'

/-- The pieces of keys in a word. The part being read is kept reversed. -/
def keyPieces? (part : List Char) : List Char → Option (List KeyPiece)
  | [] => some (if part.isEmpty then [] else [.part (String.ofList part.reverse)])
  | c :: rest =>
    if c = '.' then do
      let before := if part.isEmpty then [] else [.part (String.ofList part.reverse)]
      let after ← keyPieces? [] rest
      some (before ++ .point :: after)
    else if inBareKey c then keyPieces? (c :: part) rest
    else none

/-- The parts of a key, which have points between them. -/
def keyParts? : List KeyPiece → Option (List String)
  | [.part s] => some [s]
  | .part s :: .point :: rest => (keyParts? rest).map (s :: ·)
  | _ => none

/-- A key that is being read: its pieces so far. -/
abbrev OpenKey := List KeyPiece

/-- Adds a token to a key. -/
def addToKey? (key : OpenKey) : Token → Option OpenKey
  | .word cs => (keyPieces? [] cs).map (key ++ ·)
  | .text s => some (key ++ [.part s])
  | _ => none

/-- How deep containers may be nested, and how many parts a key may have: less than this. -/
def depthLimit : Nat := 80

/-- The table that a key is in and its name there. -/
def finished? (key : OpenKey) : Option (List String × String) := do
  let parts ← (keyParts? key).filter fun parts => parts.length < depthLimit
  let name ← parts.getLast?
  pure (parts.dropLast, name)

/-- A container that is still open: the items of an array, or the fields of a closed table and the
key of the one being read. -/
inductive Frame where
  | items (before : List Toml)
  | fields (before : List (String × Toml)) (path : List String) (key : String)

/-- What may come next in a document. -/
inductive State where
  | line
  | header (double : Bool) (key : OpenKey)
  | headerEnd (key : OpenKey)
  | key (key : OpenKey)
  | value (path : List String) (key : String) (frames : List Frame)
  | item (path : List String) (key : String) (before : List Toml) (frames : List Frame)
  | firstField (path : List String) (key : String) (frames : List Frame)
  | field (path : List String) (key : String) (before : List (String × Toml)) (frames : List Frame)
      (inner : OpenKey)
  | date (path : List String) (key : String) (frames : List Frame)
  | done (path : List String) (key : String) (v : Toml) (frames : List Frame)
  | lineEnd

/-- A document that is being read: its fields, and the path of the table that keys go into. -/
structure Document where
  fields : List (String × Toml)
  current : List String

namespace Document

def empty : Document :=
  ⟨[], []⟩

/-- Goes on with the table of a header. -/
def openHeader? (d : Document) (double : Bool) (key : OpenKey) : Option Document := do
  let (path, name) ← finished? key
  let fields ← changeAt? (if double then openRow? name else openTable? name) path d.fields
  pure ⟨fields, path ++ [name]⟩

/-- Adds a value to the table of the last header. -/
def add? (d : Document) (path : List String) (key : String) (v : Toml) : Option Document := do
  let fields ← changeAt? (addDotted? key v path) d.current d.fields
  pure { d with fields }

end Document

/-- The state behind the first token of a value. -/
def startValue? (path : List String) (key : String) (frames : List Frame) : Token → Option State
  | .word cs =>
    match ofWord? cs with
    | some .time => some (if isDate cs then .date path key frames else .done path key .time frames)
    | some v => some (.done path key v frames)
    | none => none
  | .text s => some (.done path key (.text s) frames)
  | .longText s => some (.done path key (.text s) frames)
  | .openBracket =>
    if frames.length + 1 < depthLimit then some (.item path key [] frames) else none
  | .openBrace =>
    if frames.length + 1 < depthLimit then some (.firstField path key frames) else none
  | _ => none

/-- The state behind a token that follows a value. -/
def endValue? (d : Document) (path : List String) (key : String) (v : Toml) :
    List Frame → Token → Option (Document × State)
  | [], .newline => (d.add? path key v).map fun d => (d, .line)
  | .items before :: frames, .comma => some (d, .item path key (before ++ [v]) frames)
  | .items before :: frames, .closeBracket =>
    some (d, .done path key (.array (before ++ [v])) frames)
  | .items before :: frames, .newline => some (d, .done path key v (.items before :: frames))
  | .fields before inner name :: frames, .comma =>
    (addDotted? name v inner before).map fun fields => (d, .field path key fields frames [])
  | .fields before inner name :: frames, .closeBrace =>
    (addDotted? name v inner before).map fun fields => (d, .done path key (.closed fields) frames)
  | _, _ => none

def step (s : Document × State) (piece : Piece) : Option (Document × State) :=
  let (d, state) := s
  match state, piece.token with
  | .line, .newline => some (d, .line)
  | .line, .openBracket => some (d, .header false [])
  | .line, token => (addToKey? [] token).map fun key => (d, .key key)
  | .header false [], .openBracket =>
    if piece.gap = .closed then some (d, .header true []) else none
  | .header false key, .closeBracket => (d.openHeader? false key).map fun d => (d, .lineEnd)
  | .header true key, .closeBracket => some (d, .headerEnd key)
  | .header double key, token =>
    (addToKey? key token).map fun key => (d, .header double key)
  | .headerEnd key, .closeBracket =>
    if piece.gap = .closed then (d.openHeader? true key).map fun d => (d, .lineEnd) else none
  | .headerEnd _, _ => none
  | .key key, .equals => (finished? key).map fun (path, name) => (d, .value path name [])
  | .key key, token => (addToKey? key token).map fun key => (d, .key key)
  | .value path key frames, token => (startValue? path key frames token).map fun s => (d, s)
  | .item path key before frames, .newline => some (d, .item path key before frames)
  | .item path key before frames, .closeBracket => some (d, .done path key (.array before) frames)
  | .item path key before frames, token =>
    (startValue? path key (.items before :: frames) token).map fun s => (d, s)
  | .firstField path key frames, .closeBrace => some (d, .done path key (.closed []) frames)
  | .firstField path key frames, token =>
    (addToKey? [] token).map fun inner => (d, .field path key [] frames inner)
  | .field path key before frames inner, .equals =>
    (finished? inner).map fun (innerPath, name) =>
      (d, .value path key (.fields before innerPath name :: frames))
  | .field path key before frames inner, token =>
    (addToKey? inner token).map fun inner => (d, .field path key before frames inner)
  | .date path key frames, .word cs =>
    if piece.gap = .space ∧ isClock cs then some (d, .done path key .time frames) else none
  | .date path key frames, token => endValue? d path key .time frames token
  | .done path key v frames, token => endValue? d path key v frames token
  | .lineEnd, .newline => some (d, .line)
  | .lineEnd, _ => none

/-- A text without the mark of its encoding in front. -/
def withoutMark : List Char → List Char
  | [] => []
  | c :: rest => if c.toNat = 0xFEFF then rest else c :: rest

/-- The fields of a document. Its last line need not be ended. -/
def read? (text : String) : Option (List (String × Toml)) := do
  let pieces ← pieces? .wide (withoutMark text.toList)
  let lastLine : Piece := ⟨.newline, .wide⟩
  let (d, state) ← (pieces ++ [lastLine]).foldlM step (Document.empty, State.line)
  match state with
  | .line => some d.fields
  | _ => none

end RecordQuery.Toml
