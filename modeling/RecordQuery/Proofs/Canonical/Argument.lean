import RecordQuery.Proofs.Canonical.Call
import RecordQuery.Proofs.Except
import RecordQuery.Proofs.Token.Origin

namespace RecordQuery

open Token (IsPath IsWord)
open Lexeme (Solid)

/-- A value that is read back if it is written as one token at all. Only of a double this is not
clear from its kind. -/
def Value.IsPlain : Value → Prop
  | .float x => Number.ofText? (Double.display x) = some (.float x)
  | _ => True

mutual

/-- An argument with plain values in it. -/
def Argument.IsPlain : Argument → Prop
  | .literal v => v.IsPlain
  | .call _ arguments => Argument.ArePlain arguments
  | _ => True

def Argument.ArePlain : List Argument → Prop
  | [] => True
  | a :: rest => a.IsPlain ∧ Argument.ArePlain rest

end

theorem FieldPath.text_of_forQuery {text : String} {p : FieldPath}
    (read : forQuery text = .ok p) : p.text = text := by
  unfold forQuery ofText? at read
  cases found : readSegments true text.toList with
  | none =>
    rw [found] at read
    cases read
  | some segments =>
    rw [found] at read
    cases read
    rfl

namespace Literal

theorem isLiteral_ofUnquoted {text : String} (plain : (ofUnquoted text).IsPlain) :
    (ofUnquoted text).IsLiteral := by
  unfold ofUnquoted at plain ⊢
  dsimp only at plain ⊢
  split
  · exact trivial
  split
  · exact trivial
  split
  · exact trivial
  split
  · rename_i null yes no trimmed
    simp only [if_neg null, if_neg yes, if_neg no, if_pos trimmed] at plain
    cases found : Number.ofText? text with
    | none => exact trivial
    | some n =>
      rw [found] at plain
      cases n with
      | int n => exact trivial
      | float x => exact plain
  · exact trivial

theorem text_of_ofUnquoted {text s : String} (read : ofUnquoted text = .text s) : s = text := by
  unfold ofUnquoted at read
  dsimp only at read
  split at read
  · cases read
  split at read
  · cases read
  split at read
  · cases read
  split at read
  · cases found : Number.ofText? text with
    | none =>
      rw [found] at read
      cases read
      rfl
    | some n =>
      rw [found] at read
      cases n <;> cases read
  · cases read
    rfl

end Literal

/-- What a token stands for is written as one token. -/
theorem Statement.isLiteral_of_literal? {t : Token} {v : Value} (literal : literal? t = some v)
    (plain : v.IsPlain) : v.IsLiteral := by
  unfold literal? at literal
  split at literal
  all_goals first
    | cases literal
      first
        | exact trivial
        | exact Literal.isLiteral_ofUnquoted plain
    | cases literal

namespace Argument

theorem areWritten_iff {arguments : List Argument} :
    AreWritten arguments ↔ ∀ a ∈ arguments, a.IsWritten := by
  induction arguments with
  | nil => exact ⟨fun _ => List.forall_mem_nil _, fun _ => trivial⟩
  | cons a rest ih => rw [AreWritten, ih, List.forall_mem_cons]

theorem arePlain_iff {arguments : List Argument} :
    ArePlain arguments ↔ ∀ a ∈ arguments, a.IsPlain := by
  induction arguments with
  | nil => exact ⟨fun _ => List.forall_mem_nil _, fun _ => trivial⟩
  | cons a rest ih => rw [ArePlain, ih, List.forall_mem_cons]

theorem isWritten_of_ofToken? {t : Token} {a : Argument} (read : ofToken? t = some (.ok a))
    (word : ∀ text, t = .path text → IsWord text.toList ∧ Solid text.toList) (plain : a.IsPlain) :
    a.IsWritten := by
  unfold ofToken? at read
  split at read
  · cases read
    exact trivial
  · cases read
    exact trivial
  · cases read
    exact Literal.isLiteral_ofUnquoted plain
  · rename_i text
    obtain ⟨isWord, solid⟩ := word text rfl
    split at read
    · rename_i s found
      obtain rfl := Literal.text_of_ofUnquoted found
      obtain ⟨p, path, rfl⟩ := exists_of_map_ok (Option.some.inj read)
      obtain rfl := FieldPath.text_of_forQuery path
      exact ⟨⟨isWord, path⟩, solid, found⟩
    · cases read
      exact Literal.isLiteral_ofUnquoted plain
  · cases read

end Argument

theorem Call.make_ok {kind : FunctionKind} {arguments : List Argument} {c : Call}
    (made : make kind arguments = .ok c) :
    (∀ a ∈ arguments, argumentFault? kind a = none) ∧ c = ⟨kind, arguments⟩ := by
  unfold make at made
  split at made
  · cases made
  split at made
  · cases made
  · rename_i none
    exact ⟨List.findSome?_eq_none_iff.mp none, (Except.ok.inj made).symm⟩

theorem Call.of_ofName {name : String} {arguments : List Argument} {c : Call}
    (named : ofName name arguments = .ok c) : FunctionKind.ofName? name = some c.kind ∧
      c.arguments = arguments ∧ make c.kind c.arguments = .ok c := by
  unfold ofName at named
  split at named
  · cases named
  · rename_i kind found
    have made := ok_of_mapError_ok named
    obtain ⟨-, rfl⟩ := make_ok made
    exact ⟨found, rfl, made⟩

/-- A call that is read is that of the function of its name, made of the arguments that are
read. -/
theorem Call.of_ofTexts {position : Nat} {name : String} {texts : List String} {c : Call}
    (read : ofTexts position name texts = .ok c) :
    texts.mapM (Argument.ofText position name) = .ok c.arguments ∧
      FunctionKind.ofName? name = some c.kind ∧ make c.kind c.arguments = .ok c := by
  obtain ⟨arguments, given, named⟩ := exists_of_bind_ok read
  obtain ⟨found, rfl, made⟩ := of_ofName (ok_of_mapError_ok named)
  exact ⟨given, found, made⟩

/-- A call that is read has been made of arguments that are read. -/
theorem Call.exists_of_ofTexts {position : Nat} {name : String} {texts : List String} {c : Call}
    (read : ofTexts position name texts = .ok c) : make c.kind c.arguments = .ok c ∧
      ∀ a ∈ c.arguments, ∃ text ∈ texts, Argument.ofText position name text = .ok a := by
  obtain ⟨given, -, made⟩ := of_ofTexts read
  exact ⟨made, exists_of_mapM_ok given⟩

/-- An argument that is read is a single token. -/
theorem Argument.exists_of_ofText {position : Nat} {function text : String} {a : Argument}
    (read : ofText position function text = .ok a) : ∃ l, Lexeme.ofText text = [l] ∧
      ((∃ name texts c, l.token = .call name texts ∧ Call.ofTexts position name texts = .ok c ∧
          a = c.toArgument) ∨
        ofToken? l.token = some (.ok a)) := by
  by_cases called : ∃ l name texts, Lexeme.ofText text = [l] ∧ l.token = .call name texts
  · obtain ⟨l, name, texts, single, token⟩ := called
    have tokens : (Lexeme.ofText text).map Lexeme.token = [.call name texts] := by
      rw [single, List.map_singleton, token]
    rw [ofText_call tokens position function] at read
    obtain ⟨c, made, rfl⟩ := exists_of_map_ok read
    exact ⟨l, single, .inl ⟨name, texts, c, token, made, rfl⟩⟩
  · rw [ofText] at read
    split at read
    · rename_i l single
      split at read
      · rename_i name texts token
        exact absurd ⟨l, name, texts, single, token⟩ called
      · refine ⟨l, single, .inr ?_⟩
        split at read
        · rename_i outcome found
          rw [found, ok_of_mapError_ok read]
        · cases read
    · cases read

/-- A single path that is read is a word. -/
theorem Lexeme.isWord_of_single {whole text : String} {l : Lexeme} (single : ofText whole = [l])
    (token : l.token = .path text) : IsWord text.toList := by
  have apart := allApart_ofText whole
  rw [single] at apart
  obtain _ | ⟨first, -⟩ := apart
  obtain ⟨isPath, plain | ⟨m, later, empty, -⟩⟩ := first text token
  · exact ⟨isPath, by rwa [String.ofList_toList]⟩
  · cases empty

/-- An argument that has been read from a solid text is read back from its notation. -/
theorem Argument.isWritten_of_ofText {position : Nat} {function text : String} {a : Argument}
    (solid : Solid text.toList) (read : ofText position function text = .ok a)
    (plain : a.IsPlain) : a.IsWritten := by
  obtain ⟨l, single, ⟨name, texts, c, token, made, rfl⟩ | value⟩ := exists_of_ofText read
  · obtain ⟨whole, arguments⟩ := Call.exists_of_ofTexts made
    have member : l ∈ Lexeme.ofText text := by
      rw [single]
      exact List.mem_singleton_self l
    refine ⟨areWritten_iff.mpr fun b among => ?_, whole⟩
    obtain ⟨inner, inside, same⟩ := arguments b among
    have shorter := Lexeme.length_argument_lt member token inside
    exact isWritten_of_ofText (Lexeme.solid_of_mem_call member token inside) same
      (arePlain_iff.mp plain b among)
  · refine isWritten_of_ofToken? value (fun path token => ?_) plain
    exact ⟨Lexeme.isWord_of_single single token, Lexeme.solid_of_ofText_single single token solid⟩
termination_by text.toList.length

/-- A call in a text is read back from its notation. -/
theorem Call.isWritten_of_ofTexts {whole name : String} {texts : List String} {l : Lexeme}
    (member : l ∈ Lexeme.ofText whole) (token : l.token = .call name texts) {position : Nat}
    {c : Call} (read : ofTexts position name texts = .ok c) (plain : c.toArgument.IsPlain) :
    c.IsWritten := by
  obtain ⟨made, arguments⟩ := exists_of_ofTexts read
  refine ⟨Argument.areWritten_iff.mpr fun a among => ?_, made⟩
  obtain ⟨text, inside, same⟩ := arguments a among
  exact Argument.isWritten_of_ofText (Lexeme.solid_of_mem_call member token inside) same
    (Argument.arePlain_iff.mp plain a among)

/-- The notation of a call that has been read is one lexeme, whatever stands behind it, and the same
call is made of that lexeme wherever it stands. -/
theorem Call.exists_ofTexts_display {whole name : String} {texts : List String} {l : Lexeme}
    (member : l ∈ Lexeme.ofText whole) (token : l.token = .call name texts) {position : Nat}
    {c : Call} (read : ofTexts position name texts = .ok c) (plain : c.toArgument.IsPlain) :
    ∃ arguments,
      (∀ start behind, Lexeme.ofChars start (c.displayChars ++ behind) =
        ⟨start, start + Lexeme.byteLength c.displayChars, .call c.kind.name arguments, behind⟩ ::
          Lexeme.ofChars (start + Lexeme.byteLength c.displayChars) behind) ∧
      ∀ place, ofTexts place c.kind.name arguments = .ok c := by
  obtain ⟨written, made⟩ := isWritten_of_ofTexts member token read plain
  have all := Argument.forall_readsBack c.arguments written
  exact ⟨_, ofChars_displayChars all, ofTexts_displayList made all⟩

/-- Among the arguments are a name in backticks and a call on a text that holds a comma, a quote
and a parenthesis. -/
theorem Call.exists_ofTexts_display_nested : ∃ (l : Lexeme) (texts : List String) (c : Call),
    l ∈ Lexeme.ofText "SELECT concat(\x60a b\x60.c,Upper( 'x,\"(' ), -3,TRUE , null), n" ∧
      l.token = .call "concat" texts ∧ ofTexts 7 "concat" texts = .ok c ∧
      c.toArgument.IsPlain ∧
      c.display = "CONCAT(\x60a b\x60.c, UPPER(\"x,\\\"(\"), -3, true, null)" ∧
      ∃ arguments,
        (∀ start behind, Lexeme.ofChars start (c.displayChars ++ behind) =
          ⟨start, start + Lexeme.byteLength c.displayChars, .call c.kind.name arguments, behind⟩ ::
            Lexeme.ofChars (start + Lexeme.byteLength c.displayChars) behind) ∧
        ∀ place, ofTexts place c.kind.name arguments = .ok c := by
  let texts := ["\x60a b\x60.c", "Upper( 'x,\"(' )", "-3", "TRUE", "null"]
  let l : Lexeme := ⟨7, 54, .call "concat" texts, ", n".toList⟩
  let c : Call := ⟨.concat, [.field ⟨"\x60a b\x60.c", [.key "a b", .key "c"]⟩,
    .call .upper [.literal (.text "x,\"(")], .literal (.int (-3)), .literal (.bool true),
    .literal .null]⟩
  have member : l ∈ Lexeme.ofText
      "SELECT concat(\x60a b\x60.c,Upper( 'x,\"(' ), -3,TRUE , null), n" := by
    decide +kernel
  have read : ofTexts 7 "concat" texts = .ok c := by with_unfolding_all rfl
  have plain : c.toArgument.IsPlain := by
    simp [c, toArgument, Argument.IsPlain, Argument.ArePlain, Value.IsPlain]
  exact ⟨l, texts, c, member, rfl, read, plain, by decide +kernel,
    exists_ofTexts_display member rfl read plain⟩

end RecordQuery
