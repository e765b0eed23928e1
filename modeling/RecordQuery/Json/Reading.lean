import RecordQuery.FieldPath
import RecordQuery.Json.Token

namespace RecordQuery.Json

/-- A container that is still open: the items read, or the fields read and the key of the one being
read. Items are kept last first. -/
inductive Frame where
  | items (before : List Value)
  | fields (before : List (String × Value)) (key : String)

/-- What may come next. The list of frames is the way from the innermost open container to the
outermost one. -/
inductive State where
  | value (frames : List Frame)
  | firstItem (frames : List Frame)
  | firstKey (frames : List Frame)
  | key (before : List (String × Value)) (frames : List Frame)
  | colon (before : List (String × Value)) (key : String) (frames : List Frame)
  | done (v : Value) (frames : List Frame)

/-- Containers may be nested this deep. -/
def depthLimit : Nat := 127

/-- Opens a container, unless too many are open. -/
def opened (frames : List Frame) (next : State) : Option State :=
  if frames.length < depthLimit then some next else none

/-- The state behind the first token of a value. -/
def startValue (frames : List Frame) : Token → Option State
  | .null => some (.done .null frames)
  | .bool b => some (.done (.bool b) frames)
  | .number n => some (.done (.ofNumber n) frames)
  | .text s => some (.done (.text s) frames)
  | .openArray => opened frames (.firstItem frames)
  | .openObject => opened frames (.firstKey frames)
  | _ => none

def step : State → Token → Option State
  | .value frames, token => startValue frames token
  | .firstItem frames, .closeArray => some (.done (.array []) frames)
  | .firstItem frames, token => startValue (.items [] :: frames) token
  | .firstKey frames, .closeObject => some (.done (.record []) frames)
  | .firstKey frames, .text key => some (.colon [] key frames)
  | .firstKey _, _ => none
  | .key before frames, .text key => some (.colon before key frames)
  | .key _ _, _ => none
  | .colon before key frames, .colon => some (.value (.fields before key :: frames))
  | .colon _ _ _, _ => none
  | .done v (.items before :: frames), .comma => some (.value (.items (v :: before) :: frames))
  | .done v (.items before :: frames), .closeArray =>
    some (.done (.array (before.reverse ++ [v])) frames)
  | .done v (.fields before key :: frames), .comma =>
    some (.key (Record.insertField key v before) frames)
  | .done v (.fields before key :: frames), .closeObject =>
    some (.done (.record (Record.insertField key v before)) frames)
  | .done _ _, _ => none

/-- The value that tokens denote. -/
def ofTokens? (tokens : List Token) : Option Value := do
  match ← tokens.foldlM step (.value []) with
  | .done v [] => some v
  | _ => none

/-- Reads a value from JSON. Of fields with one key the last value stands at the first place. -/
def read? (text : String) : Option Value := do
  let tokens ← tokens? text.toList
  ofTokens? tokens

end RecordQuery.Json

namespace RecordQuery.Record

/-- Reads a record from JSON. -/
def ofJson (text : String) : Except ValueError Record :=
  match Json.read? text with
  | some (.record fields) => .ok ⟨fields⟩
  | some v => .error (.notRecord v.typeName)
  | none => .error .json

end RecordQuery.Record
