import RecordQuery.Call
import RecordQuery.Statement.Literal
import RecordQuery.Token.Lexeme

namespace RecordQuery

/-- An argument that is a single token and no call. Unquoted texts that stand for no other value
name a field. -/
def Argument.ofToken? : Token → Option (Except BuildFault Argument)
  | .sign .star => some (.ok .star)
  | .quoted text => some (.ok (.literal (.text (Literal.unquote text))))
  | .number text => some (.ok (.literal (Literal.ofUnquoted text)))
  | .path text =>
    match Literal.ofUnquoted text with
    | .text _ => some ((FieldPath.forQuery text).map .field)
    | v => some (.ok (.literal v))
  | _ => none

/-- The call of the function of a name, at a position of a statement. -/
def Call.ofNameAt (position : Nat) (name : String) (arguments : List Argument) :
    Except QueryError Call :=
  (Call.ofName name arguments).mapError fun e =>
    match e with
    | .build fault => .parse position (.build fault)
    | other => other

/-- Reads an argument of a function, which has to be a single token. What is wrong in it is reported
at the position of the outermost call. -/
def Argument.ofText (position : Nat) (function text : String) : Except QueryError Argument :=
  match _ : Lexeme.ofText text with
  | [l] =>
    match _ : l.token with
    | .call name texts => do
      let arguments ← texts.attach.mapM fun inner => Argument.ofText position name inner.val
      let call ← Call.ofNameAt position name arguments
      pure call.toArgument
    | other =>
      match Argument.ofToken? other with
      | some argument => argument.mapError fun fault => .parse position (.build fault)
      | none => .error (.parse position (.invalidArgument text function))
  | _ => .error (.parse position (.invalidArgument text function))
termination_by text.toList.length
decreasing_by
  have member : l ∈ Lexeme.ofText text := by
    rw [‹Lexeme.ofText text = [l]›]
    exact List.mem_singleton_self l
  exact Lexeme.length_argument_lt member ‹_› inner.property

/-- Reads a call from its name and the texts of its arguments. -/
def Call.ofTexts (position : Nat) (name : String) (texts : List String) :
    Except QueryError Call := do
  let arguments ← texts.mapM (Argument.ofText position name)
  Call.ofNameAt position name arguments

end RecordQuery
