import RecordQuery.Proofs.Canonical.Literal
import RecordQuery.Proofs.Token.Balance
import RecordQuery.Proofs.Token.Cut
import RecordQuery.Proofs.Token.Trim

namespace RecordQuery

open Token (IsNumeral IsPath IsPiece IsWord Stops)
open Lexeme (ScansAlone Solid Spells)

/-- A path that is read back from its notation. -/
structure FieldPath.IsWritten (p : FieldPath) : Prop where
  word : IsWord p.text.toList
  read : FieldPath.forQuery p.text = .ok p

mutual

/-- An argument that is read back from its notation. A path must not look like another value, and
it must not disturb the parentheses around it. -/
def Argument.IsWritten : Argument → Prop
  | .field path =>
    path.IsWritten ∧ Solid path.text.toList ∧ Literal.ofUnquoted path.text = .text path.text
  | .literal v => v.IsLiteral
  | .call kind arguments =>
    Argument.AreWritten arguments ∧ Call.make kind arguments = .ok ⟨kind, arguments⟩
  | .star => True

def Argument.AreWritten : List Argument → Prop
  | [] => True
  | a :: rest => a.IsWritten ∧ Argument.AreWritten rest

end

def Call.IsWritten (call : Call) : Prop :=
  call.toArgument.IsWritten

namespace Lexeme

/-- Whether a character opens or closes nothing and separates nothing in arguments. -/
def isPlain (c : Char) : Bool :=
  c != '"' && c != '\'' && c != '(' && c != ')' && c != ','

theorem pass_of_plain {cs : List Char} (plain : ∀ c ∈ cs, isPlain c = true) (depth : Nat) :
    pass .outside depth cs = some (.outside, depth) := by
  induction cs with
  | nil => rfl
  | cons c rest ih =>
    obtain ⟨first, later⟩ := List.forall_mem_cons.mp plain
    simp only [isPlain, Bool.and_eq_true, bne_iff_ne] at first
    obtain ⟨⟨⟨⟨double, single⟩, opens⟩, closes⟩, comma⟩ := first
    have next : Quoting.outside.next c = .outside := by simp [Quoting.next, double, single]
    rw [pass, if_neg (by simp [opens]), if_neg (by simp [closes]), if_neg (by simp [comma]), next]
    exact ih later

theorem pass_escapeQuoted (cs : List Char) (depth : Nat) :
    pass (.inside '"') depth (Value.escapeQuoted cs) = some (.inside '"', depth) := by
  have inside (q : Quoting) (other : q ≠ .outside) (c : Char) (rest : List Char) :
      pass q depth (c :: rest) = pass (q.next c) depth rest := by
    rw [pass, if_neg (by simp [other]), if_neg (by simp [other]), if_neg (by simp [other])]
  induction cs with
  | nil => rfl
  | cons c rest ih =>
    by_cases escaped : c = '"' ∨ c = '\\'
    · rw [Value.escapeQuoted, if_pos escaped]
      exact (inside _ (by decide) _ _).trans ((inside _ (by decide) _ _).trans ih)
    · obtain ⟨quote, backslash⟩ := not_or.mp escaped
      have next : (Quoting.inside '"').next c = .inside '"' := by
        simp [Quoting.next, quote, backslash]
      rw [Value.escapeQuoted, if_neg escaped, inside (.inside '"') (by decide), next, ih]

theorem solid_quoted (s : String) : Solid (Value.quoted s) := by
  have opened : pass .outside 0 ['"'] = some (.inside '"', 0) := rfl
  have split : Value.quoted s = ['"'] ++ (Value.escapeQuoted s.toList ++ ['"']) := rfl
  rw [Solid, split, pass_append, opened]
  change pass (.inside '"') 0 _ = _
  rw [pass_append, pass_escapeQuoted]
  rfl

theorem solid_numeral {cs : List Char} (written : IsNumeral cs) : Solid cs := by
  have digits {ds : List Char} (all : ∀ c ∈ ds, Text.isDigit c = true) :
      ∀ c ∈ ds, isPlain c = true := by
    intro c member
    have digit := all c member
    simp only [isPlain, Bool.and_eq_true, bne_iff_ne]
    have other {d : Char} (sign : Text.isDigit d = false) : c ≠ d := Token.ne_of_holds digit sign
    exact ⟨⟨⟨⟨other rfl, other rfl⟩, other rfl⟩, other rfl⟩, other rfl⟩
  obtain ⟨negative, -, whole, fraction⟩ := written
  refine pass_of_plain (List.forall_mem_append.mpr ⟨?_, List.forall_mem_append.mpr
    ⟨digits whole, ?_⟩⟩) 0
  · cases negative <;> exact List.all_eq_true.mp rfl
  · split
    · nofun
    · exact List.forall_mem_cons.mpr ⟨rfl, digits fraction⟩

/-- The lexemes of a text that spells tokens. -/
theorem Spells.ofText_map {cs : List Char} {ts : List Token} (spells : Spells cs ts) :
    (Lexeme.ofText (String.ofList cs)).map Lexeme.token = ts := by
  obtain ⟨ls, tokens, cut⟩ := spells [] Stops.nil 0
  rw [List.append_nil] at cut
  rw [Lexeme.ofText, String.toList_ofList]
  change (ofChars 0 cs).map Lexeme.token = ts
  rw [cut, ofChars_nil, List.append_nil, tokens]

end Lexeme

namespace Argument

/-- Characters that are an argument of their own and are read as this one. -/
structure ReadsBack (cs : List Char) (a : Argument) : Prop where
  solid : Solid cs
  trimmed : Text.trimChars cs = cs
  nonempty : cs ≠ []
  alone : ScansAlone cs
  read : ∀ position function, ofText position function (String.ofList cs) = .ok a

theorem ofText_token {text : String} {t : Token} {a : Argument}
    (tokens : (Lexeme.ofText text).map Lexeme.token = [t]) (read : ofToken? t = some (.ok a))
    (position : Nat) (function : String) : ofText position function text = .ok a := by
  obtain ⟨l, single, same⟩ := List.map_eq_singleton_iff.mp tokens
  rw [ofText]
  split
  · rename_i m found
    cases single.symm.trans found
    split
    · rename_i name texts call
      rw [same.symm.trans call] at read
      cases read
    · rename_i call
      rw [same, read]
      rfl
  · rename_i none
    exact absurd single (none l)

theorem ofText_call {text name : String} {texts : List String}
    (tokens : (Lexeme.ofText text).map Lexeme.token = [.call name texts])
    (position : Nat) (function : String) :
    ofText position function text = (Call.ofTexts position name texts).map Call.toArgument := by
  obtain ⟨l, single, same⟩ := List.map_eq_singleton_iff.mp tokens
  rw [ofText]
  split
  · rename_i m found
    cases single.symm.trans found
    split
    · rename_i other others call
      cases same.symm.trans call
      rw [List.mapM_subtype (g := ofText position name) fun _ _ => rfl, List.unattach_attach,
        Call.ofTexts]
      cases texts.mapM (ofText position name) with
      | error e => rfl
      | ok arguments =>
        change (Call.ofNameAt position name arguments >>= fun call => pure call.toArgument) =
          (Call.ofNameAt position name arguments).map Call.toArgument
        cases Call.ofNameAt position name arguments <;> rfl
    · rename_i call
      exact absurd same (call _ _)
  · rename_i none
    exact absurd single (none l)

theorem ReadsBack.of_piece {cs : List Char} {t : Token} {a : Argument} (piece : IsPiece cs t)
    (solid : Solid cs) (trimmed : Text.trimChars cs = cs) (read : ofToken? t = .some (.ok a)) :
    ReadsBack cs a where
  solid
  trimmed
  nonempty := by
    obtain ⟨c, rest, rfl, -⟩ := piece
    exact List.cons_ne_nil c rest
  alone := .of_piece piece
  read := ofText_token (Spells.of_piece piece).ofText_map read

theorem readsBack_field {path : FieldPath} (written : path.IsWritten)
    (solid : Solid path.text.toList) (plain : Literal.ofUnquoted path.text = .text path.text) :
    ReadsBack path.text.toList (.field path) := by
  refine .of_piece written.word.isPiece solid written.word.path.trimChars ?_
  rw [String.ofList_toList, ofToken?, plain]
  simp only [written.read]
  rfl

theorem readsBack_literal {v : Value} (isLiteral : v.IsLiteral) :
    ReadsBack v.displayChars (.literal v) := by
  obtain ⟨t, piece, -, read⟩ := Value.exists_literal isLiteral
  obtain ⟨solid, trimmed⟩ :
      Solid v.displayChars ∧ Text.trimChars v.displayChars = v.displayChars := by
    cases v with
    | null => exact ⟨rfl, rfl⟩
    | bool b => cases b <;> exact ⟨rfl, rfl⟩
    | int n =>
      have written := Decimal.isNumeral_integerChars n.toInt
      exact ⟨Lexeme.solid_numeral written, written.trimChars⟩
    | float x =>
      have written := Double.isNumeral_displayChars isLiteral
      exact ⟨Lexeme.solid_numeral written, written.trimChars⟩
    | text s =>
      refine ⟨Lexeme.solid_quoted s, Text.trimChars_of_ends (fun c first => ?_) fun c last => ?_⟩
      · cases first
        rfl
      · rw [Value.displayChars, Value.quoted, List.getLast?_concat] at last
        cases last
        rfl
    | array items => exact isLiteral.elim
    | record fields => exact isLiteral.elim
  exact .of_piece piece solid trimmed read

theorem readsBack_star : ReadsBack ['*'] .star :=
  .of_piece (t := .sign .star) (Token.isPiece_sign .star) rfl (by decide) rfl

theorem scansAlone_displayList {arguments : List Argument}
    (all : ∀ a ∈ arguments, ReadsBack a.displayChars a) : ScansAlone (displayList arguments) := by
  match arguments with
  | [] => exact .nil
  | [a] => exact (all a (List.mem_singleton_self a)).alone
  | a :: b :: rest =>
    obtain ⟨first, later⟩ := List.forall_mem_cons.mp all
    exact first.alone.append (scansAlone_displayList later).blank.comma (Stops.comma _)

/-- Displayed arguments end where the parentheses around them are closed. -/
theorem untilClosed_displayList {arguments : List Argument}
    (all : ∀ a ∈ arguments, ReadsBack a.displayChars a) (behind : List Char) :
    Lexeme.untilClosed .outside 0 (displayList arguments ++ ')' :: behind) =
      some (displayList arguments) := by
  match arguments with
  | [] => rfl
  | [a] =>
    rw [displayList, Lexeme.untilClosed_append (all a (List.mem_singleton_self a)).solid]
    exact congrArg some (List.append_nil _)
  | a :: b :: rest =>
    obtain ⟨first, later⟩ := List.forall_mem_cons.mp all
    have separated (cs : List Char) : Lexeme.untilClosed .outside 0 (',' :: ' ' :: cs) =
        ((Lexeme.untilClosed .outside 0 cs).map (' ' :: ·)).map (',' :: ·) := rfl
    rw [displayList, List.append_assoc, Lexeme.untilClosed_append first.solid, List.cons_append,
      List.cons_append, separated, untilClosed_displayList later]
    rfl

/-- Displayed arguments are split as they have been put together. -/
theorem splitArguments_displayList {a : Argument} {arguments : List Argument}
    (all : ∀ b ∈ a :: arguments, ReadsBack b.displayChars b) (part : List Char) :
    Lexeme.splitArguments .outside 0 part (displayList (a :: arguments)) =
      (part.reverse ++ a.displayChars) :: arguments.map fun b => ' ' :: b.displayChars := by
  have solid := (all a (List.mem_cons_self ..)).solid
  match arguments with
  | [] =>
    have alone := Lexeme.splitArguments_append part [] solid
    rw [List.append_nil] at alone
    rw [displayList, alone, Lexeme.splitArguments, List.reverse_append, List.reverse_reverse]
    rfl
  | b :: rest =>
    obtain ⟨-, later⟩ := List.forall_mem_cons.mp all
    have separated (ds cs : List Char) : Lexeme.splitArguments .outside 0 ds (',' :: ' ' :: cs) =
        ds.reverse :: Lexeme.splitArguments .outside 0 [' '] cs := rfl
    rw [displayList, Lexeme.splitArguments_append part _ solid, separated,
      splitArguments_displayList later, List.reverse_append, List.reverse_reverse]
    rfl

/-- Inside of parentheses the commas between arguments do not count. -/
theorem pass_displayList {arguments : List Argument}
    (all : ∀ a ∈ arguments, ReadsBack a.displayChars a) :
    Lexeme.pass .outside 1 (displayList arguments) = some (.outside, 1) := by
  match arguments with
  | [] => rfl
  | [a] => exact Lexeme.pass_deeper 1 (all a (List.mem_singleton_self a)).solid
  | a :: b :: rest =>
    obtain ⟨first, later⟩ := List.forall_mem_cons.mp all
    have deeper := Lexeme.pass_deeper 1 first.solid
    rw [displayList, Lexeme.pass_append, deeper]
    exact pass_displayList later

theorem argumentsOf_displayList {arguments : List Argument}
    (all : ∀ a ∈ arguments, ReadsBack a.displayChars a) :
    Lexeme.argumentsOf (displayList arguments) =
      arguments.map fun a => String.ofList a.displayChars := by
  match arguments with
  | [] => rfl
  | a :: rest =>
    obtain ⟨first, later⟩ := List.forall_mem_cons.mp all
    have visible : Text.trimChars (displayList (a :: rest)) ≠ [] := by
      match rest with
      | [] =>
        rw [displayList, first.trimmed]
        exact first.nonempty
      | b :: more =>
        refine Text.trimChars_ne_nil (c := ',') ?_ rfl
        rw [displayList]
        exact List.mem_append_right _ (List.mem_cons_self ..)
    have trimmed : rest.map (fun b => String.ofList (Text.trimChars (' ' :: b.displayChars))) =
        rest.map fun b => String.ofList b.displayChars :=
      List.map_congr_left fun b member => by rw [Text.trimChars_blank, (later b member).trimmed]
    rw [Lexeme.argumentsOf, if_neg (by simpa using visible), splitArguments_displayList all,
      List.map_cons, List.map_map, List.map_cons, List.reverse_nil, List.nil_append, first.trimmed]
    exact congrArg _ trimmed

theorem mapM_ofText {arguments : List Argument}
    (all : ∀ a ∈ arguments, ReadsBack a.displayChars a) (position : Nat) (function : String) :
    (arguments.map fun a => String.ofList a.displayChars).mapM (ofText position function) =
      .ok arguments := by
  induction arguments with
  | nil => rfl
  | cons a rest ih =>
    obtain ⟨first, later⟩ := List.forall_mem_cons.mp all
    rw [List.map_cons, List.mapM_cons, first.read, ih later]
    rfl

end Argument

/-- Functions are called by a name that can be the beginning of a call. -/
theorem FunctionKind.name_spec (kind : FunctionKind) :
    IsPath kind.name.toList ∧ Keyword.ofText? (String.ofList kind.name.toList) = none ∧
      Lexeme.isIdentifier kind.name.toList = true ∧ ofName? kind.name = some kind ∧
      ∀ c ∈ kind.name.toList, Lexeme.isPlain c = true := by
  have letters : ∃ c rest, kind.name.toList = c :: rest ∧ Token.startsName c = true ∧
      ∀ d ∈ rest, Token.inName d = true := by
    cases kind <;> exact ⟨_, _, rfl, rfl, List.all_eq_true.mp rfl⟩
  obtain ⟨c, rest, same, starts, all⟩ := letters
  have path : IsPath (c :: (rest ++ ([] ++ []))) := .bare starts all (.inl rfl) .done
  rw [List.append_nil, List.append_nil, ← same] at path
  refine ⟨path, ?_⟩
  cases kind <;> exact ⟨by decide, rfl, rfl, List.all_eq_true.mp rfl⟩

/-- A call with arguments that are read back is read back. -/
theorem Call.ofTexts_displayList {c : Call} (made : Call.make c.kind c.arguments = .ok c)
    (all : ∀ a ∈ c.arguments, Argument.ReadsBack a.displayChars a) (position : Nat) :
    Call.ofTexts position c.kind.name (Lexeme.argumentsOf (Argument.displayList c.arguments)) =
      .ok c := by
  rw [ofTexts, Argument.argumentsOf_displayList all, Argument.mapM_ofText all]
  change ofNameAt position c.kind.name c.arguments = .ok c
  rw [ofNameAt, ofName, c.kind.name_spec.2.2.2.1]
  simp only [made]
  rfl

/-- A displayed call is one lexeme, whatever stands behind it. -/
theorem Call.ofChars_displayChars {c : Call}
    (all : ∀ a ∈ c.arguments, Argument.ReadsBack a.displayChars a) (start : Nat)
    (behind : List Char) :
    Lexeme.ofChars start (c.displayChars ++ behind) =
      ⟨start, start + Lexeme.byteLength c.displayChars,
          .call c.kind.name (Lexeme.argumentsOf (Argument.displayList c.arguments)), behind⟩ ::
        Lexeme.ofChars (start + Lexeme.byteLength c.displayChars) behind := by
  obtain ⟨path, plain, identifier, -, -⟩ := c.kind.name_spec
  have alone := Argument.scansAlone_displayList all
  have closed := Argument.untilClosed_displayList all behind
  have cut := Lexeme.ofChars_call path plain identifier alone closed start
  rw [String.ofList_toList] at cut
  rw [displayChars, toArgument, Argument.displayChars, List.append_assoc c.kind.name.toList]
  exact cut

theorem Call.spells {c : Call} (all : ∀ a ∈ c.arguments, Argument.ReadsBack a.displayChars a) :
    Spells c.displayChars
      [.call c.kind.name (Lexeme.argumentsOf (Argument.displayList c.arguments))] :=
  fun behind _ start => ⟨[_], rfl, Call.ofChars_displayChars all start behind⟩

namespace Argument

theorem readsBack_call {kind : FunctionKind} {arguments : List Argument}
    (made : Call.make kind arguments = .ok ⟨kind, arguments⟩)
    (all : ∀ a ∈ arguments, ReadsBack a.displayChars a) :
    ReadsBack (Argument.call kind arguments).displayChars (.call kind arguments) where
  solid := by
    obtain ⟨-, -, -, -, plain⟩ := kind.name_spec
    rw [displayChars, Solid, List.append_assoc, Lexeme.pass_append, Lexeme.pass_of_plain plain]
    change Lexeme.pass .outside 1 (displayList arguments ++ [')']) = _
    rw [Lexeme.pass_append, pass_displayList all]
    rfl
  trimmed := by
    obtain ⟨path, -⟩ := kind.name_spec
    obtain ⟨c, rest, same, visible⟩ := path.exists_cons
    refine Text.trimChars_of_ends (fun d first => ?_) fun d last => ?_
    · rw [displayChars, same] at first
      cases first
      exact visible
    · rw [displayChars, List.getLast?_concat] at last
      cases last
      rfl
  nonempty := by
    rw [displayChars]
    exact List.append_ne_nil_of_right_ne_nil _ (List.cons_ne_nil _ _)
  alone := by
    obtain ⟨path, plain, -⟩ := kind.name_spec
    rw [displayChars, List.append_assoc]
    exact .call path plain (scansAlone_displayList all)
  read position function := by
    let c : Call := ⟨kind, arguments⟩
    have spells := (Call.spells (c := c) all).ofText_map
    have read := Call.ofTexts_displayList (c := c) made all position
    exact (ofText_call spells position function).trans (congrArg (Except.map Call.toArgument) read)

mutual

theorem readsBack : (a : Argument) → a.IsWritten → ReadsBack a.displayChars a
  | .field _, ⟨written, solid, plain⟩ => readsBack_field written solid plain
  | .literal _, isLiteral => readsBack_literal isLiteral
  | .call _ arguments, ⟨written, made⟩ => readsBack_call made (forall_readsBack arguments written)
  | .star, _ => readsBack_star

theorem forall_readsBack :
    (arguments : List Argument) → AreWritten arguments → ∀ a ∈ arguments, ReadsBack a.displayChars a
  | [], _ => nofun
  | a :: rest, ⟨first, later⟩ =>
    List.forall_mem_cons.mpr ⟨readsBack a first, forall_readsBack rest later⟩

end

end Argument

end RecordQuery
