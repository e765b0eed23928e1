import RecordQuery.Proofs.Token.Piece
import RecordQuery.Token.Lexeme

namespace RecordQuery

namespace Lexeme

open Token

/-- The lexemes of characters that begin at a byte. -/
def ofChars (start : Nat) (cs : List Char) : List Lexeme :=
  assemble (scanFrom start cs)

theorem ofChars_nil (start : Nat) : ofChars start [] = [] := by
  rw [ofChars, scanFrom, assemble]

/-- Characters that the scanner cuts off wherever a text stops behind them. -/
def ScansAlone (cs : List Char) : Prop :=
  ∀ behind, Stops behind → ∀ start, ∃ ls,
    scanFrom start (cs ++ behind) = ls ++ scanFrom (start + byteLength cs) behind ∧
      ∀ l ∈ ls, l.start < start + byteLength cs

/-- Characters that are these tokens wherever a text stops behind them. -/
def Spells (cs : List Char) (ts : List Token) : Prop :=
  ∀ behind, Stops behind → ∀ start, ∃ ls, ls.map Lexeme.token = ts ∧
    ofChars start (cs ++ behind) = ls ++ ofChars (start + byteLength cs) behind

theorem byteLength_append (xs ys : List Char) :
    byteLength (xs ++ ys) = byteLength xs + byteLength ys := by
  induction xs with
  | nil => exact (Nat.zero_add _).symm
  | cons c rest ih => rw [List.cons_append, byteLength, byteLength, ih, Nat.add_assoc]

theorem byteLength_pos {cs : List Char} (nonempty : cs ≠ []) : 0 < byteLength cs := by
  cases cs with
  | nil => exact absurd rfl nonempty
  | cons c rest => exact Nat.add_pos_left c.utf8Size_pos _

theorem scanFrom_space {c : Char} (space : isSpace c = true) (start : Nat) (cs : List Char) :
    scanFrom start (c :: cs) = scanFrom (start + c.utf8Size) cs := by
  rw [scanFrom, if_pos space]

theorem ofChars_blank (start : Nat) (cs : List Char) :
    ofChars start (' ' :: cs) = ofChars (start + 1) cs :=
  congrArg assemble (scanFrom_space rfl start cs)

theorem scanFrom_token {c : Char} {rest behind : List Char} {t : Token}
    (visible : isSpace c = false) (read : scan c (rest ++ behind) = (t, rest.length))
    (start : Nat) :
    scanFrom start (c :: (rest ++ behind)) =
      ⟨start, start + byteLength (c :: rest), t, behind⟩ ::
        scanFrom (start + byteLength (c :: rest)) behind := by
  rw [scanFrom, if_neg (by simp [visible])]
  simp only [read, List.take_left, List.drop_left, byteLength, Nat.add_assoc]

theorem start_le_of_mem {start : Nat} {cs : List Char} {l : Lexeme}
    (member : l ∈ scanFrom start cs) : start ≤ l.start := by
  induction start, cs using scanFrom.induct with
  | case1 =>
    rw [scanFrom] at member
    cases member
  | case2 start c rest space ih =>
    rw [scanFrom_space space] at member
    exact Nat.le_trans (Nat.le_add_right _ _) (ih member)
  | case3 start c rest space token more scanned stop ih =>
    rw [scanFrom, if_neg space] at member
    simp only [scanned] at member
    rcases List.mem_cons.mp member with rfl | later
    · exact Nat.le_refl _
    · have bound := ih later
      omega

/-- A lexeme of its own in front of characters that scan alone. -/
theorem ScansAlone.cons {c : Char} {rest cs : List Char} {t : Token} (visible : isSpace c = false)
    (read : ∀ behind, Stops behind → scan c (rest ++ (cs ++ behind)) = (t, rest.length))
    (alone : ScansAlone cs) : ScansAlone (c :: (rest ++ cs)) := by
  intro behind stops start
  obtain ⟨ls, cut, inside⟩ := alone behind stops (start + byteLength (c :: rest))
  have length : byteLength (c :: (rest ++ cs)) = byteLength (c :: rest) + byteLength cs :=
    byteLength_append (c :: rest) cs
  have positive : 0 < byteLength (c :: rest) := byteLength_pos (List.cons_ne_nil _ _)
  refine ⟨⟨start, start + byteLength (c :: rest), t, cs ++ behind⟩ :: ls, ?_, fun l member => ?_⟩
  · rw [List.cons_append, List.append_assoc, scanFrom_token visible (read behind stops), cut,
      length, Nat.add_assoc]
    rfl
  · rw [length]
    rcases List.mem_cons.mp member with rfl | later
    · exact Nat.lt_add_of_pos_right (by omega)
    · rw [← Nat.add_assoc]
      exact inside l later

namespace ScansAlone

variable {xs ys : List Char}

theorem nil : ScansAlone [] :=
  fun _ _ _ => ⟨[], rfl, nofun⟩

theorem append (first : ScansAlone xs) (second : ScansAlone ys) (stops : Stops ys) :
    ScansAlone (xs ++ ys) := by
  intro behind ends start
  obtain ⟨ls, cut, inside⟩ := first (ys ++ behind) (stops.append ends) start
  obtain ⟨ms, cutAgain, insideAgain⟩ := second behind ends (start + byteLength xs)
  refine ⟨ls ++ ms, ?_, fun l member => ?_⟩
  · rw [List.append_assoc, cut, cutAgain, byteLength_append, List.append_assoc, Nat.add_assoc]
  · rw [byteLength_append, ← Nat.add_assoc]
    rcases List.mem_append.mp member with earlier | later
    · exact Nat.lt_of_lt_of_le (inside l earlier) (Nat.le_add_right _ _)
    · exact insideAgain l later

theorem blank (alone : ScansAlone xs) : ScansAlone (' ' :: xs) := by
  intro behind stops start
  obtain ⟨ls, cut, inside⟩ := alone behind stops (start + 1)
  refine ⟨ls, ?_, fun l member => ?_⟩
  · rw [List.cons_append, scanFrom_space rfl, byteLength, ← Nat.add_assoc]
    exact cut
  · rw [byteLength, ← Nat.add_assoc]
    exact inside l member

theorem of_piece {t : Token} (piece : IsPiece xs t) : ScansAlone xs := by
  obtain ⟨c, rest, rfl, visible, read⟩ := piece
  have alone := nil.cons visible fun behind stops => read behind stops
  rwa [List.append_nil] at alone

/-- A sign in front of characters that scan alone. -/
theorem sign {c : Char} {t : Token} (visible : isSpace c = false)
    (read : ∀ behind, scan c behind = (t, 0)) (alone : ScansAlone xs) : ScansAlone (c :: xs) := by
  have scanned (behind : List Char) (_ : Stops behind) :
      scan c ([] ++ (xs ++ behind)) = (t, ([] : List Char).length) := read _
  exact alone.cons visible scanned

theorem comma (alone : ScansAlone xs) : ScansAlone (',' :: xs) :=
  alone.sign rfl fun _ => rfl

/-- Parentheses are scanned with what stands between them, whatever stands behind them. -/
theorem enclosed (alone : ScansAlone xs) (behind : List Char) (start : Nat) : ∃ ls,
    scanFrom start ('(' :: (xs ++ [')'] ++ behind)) =
        ls ++ scanFrom (start + byteLength ('(' :: (xs ++ [')']))) behind ∧
      ∀ l ∈ ls, l.start < start + byteLength ('(' :: (xs ++ [')'])) := by
  obtain ⟨ls, cut, inside⟩ := alone (')' :: behind) (Stops.paren behind) (start + 1)
  have opening (cs : List Char) : scanFrom start ('(' :: cs) =
      ⟨start, start + 1, .sign .openParen, cs⟩ :: scanFrom (start + 1) cs :=
    @scanFrom_token '(' [] cs _ rfl rfl start
  have closing (stop : Nat) : scanFrom stop (')' :: behind) =
      ⟨stop, stop + 1, .sign .closeParen, behind⟩ :: scanFrom (stop + 1) behind :=
    @scanFrom_token ')' [] behind _ rfl rfl stop
  have length : start + byteLength ('(' :: (xs ++ [')'])) = start + 1 + byteLength xs + 1 := by
    rw [byteLength, byteLength_append, ← Nat.add_assoc, ← Nat.add_assoc]
    rfl
  refine ⟨⟨start, start + 1, .sign .openParen, xs ++ [')'] ++ behind⟩ :: (ls ++
    [⟨start + 1 + byteLength xs, start + 1 + byteLength xs + 1, .sign .closeParen, behind⟩]),
    ?_, ?_⟩
  · rw [length, opening, List.append_assoc, List.singleton_append, cut, closing, List.cons_append,
      List.append_assoc, List.singleton_append]
  · rw [length]
    intro l member
    rcases List.mem_cons.mp member with rfl | later
    · change start < _
      omega
    rcases List.mem_append.mp later with within | last
    · have bound := inside l within
      omega
    · obtain rfl := List.mem_singleton.mp last
      exact Nat.lt_succ_self _

theorem parens (alone : ScansAlone xs) : ScansAlone ('(' :: (xs ++ [')'])) :=
  fun behind _ start => alone.enclosed behind start

/-- A call scans alone when what stands between its parentheses does. -/
theorem call {name : List Char} (isPath : IsPath name)
    (plain : Keyword.ofText? (String.ofList name) = none) (alone : ScansAlone xs) :
    ScansAlone (name ++ '(' :: (xs ++ [')'])) := by
  have ends (behind : List Char) : EndsPath ('(' :: (xs ++ [')'] ++ behind)) := by
    intro c first
    cases first
    decide
  obtain ⟨c, rest, rfl, visible, -⟩ := isPath.scan plain (ends [])
  refine alone.parens.cons (t := .path (String.ofList (c :: rest))) visible fun behind _ => ?_
  obtain ⟨d, later, same, -, read⟩ := isPath.scan plain (ends behind)
  cases same
  exact read

end ScansAlone

theorem assemble_plain {l : Lexeme} (plain : l.call? = none) (rest : List Lexeme) :
    assemble (l :: rest) = l :: assemble rest := by
  rw [assemble, plain]

/-- What stands in front of a text where pieces stop is no call. -/
theorem call?_stops {start stop : Nat} {t : Token} {behind : List Char}
    (stops : ∀ name, t = .path name → Stops behind) :
    (Lexeme.mk start stop t behind).call? = none := by
  unfold call?
  split
  · rename_i name rest token found
    have first : behind.head? = some '(' := congrArg List.head? found
    rcases stops name token '(' first with same | same | same <;> cases same
  · rfl

theorem scanFrom_piece {cs behind : List Char} {t : Token} (piece : IsPiece cs t)
    (stops : Stops behind) (start : Nat) :
    scanFrom start (cs ++ behind) =
      ⟨start, start + byteLength cs, t, behind⟩ :: scanFrom (start + byteLength cs) behind := by
  obtain ⟨c, rest, rfl, visible, read⟩ := piece
  exact scanFrom_token visible (read behind stops) start

/-- A piece is one lexeme that covers it, wherever a text stops behind it. -/
theorem ofChars_piece {cs behind : List Char} {t : Token} (piece : IsPiece cs t)
    (stops : Stops behind) (start : Nat) :
    ofChars start (cs ++ behind) =
      ⟨start, start + byteLength cs, t, behind⟩ :: ofChars (start + byteLength cs) behind := by
  rw [ofChars, scanFrom_piece piece stops, assemble_plain (call?_stops fun _ _ => stops)]
  rfl

/-- A call swallows the lexemes that begin inside of it, and no others. -/
theorem assemble_call {l call : Lexeme} (found : l.call? = some call) {inside : List Lexeme}
    (within : ∀ m ∈ inside, m.start < call.stop) (cs : List Char) :
    assemble (l :: (inside ++ scanFrom call.stop cs)) = call :: ofChars call.stop cs := by
  have swallowed : (inside ++ scanFrom call.stop cs).dropWhile
      (fun next => decide (next.start < call.stop)) = scanFrom call.stop cs := by
    rw [List.dropWhile_append_of_pos fun m member => decide_eq_true (within m member)]
    cases rest : scanFrom call.stop cs with
    | nil => rfl
    | cons first later =>
      have bound := start_le_of_mem (rest ▸ List.mem_cons_self .. : first ∈ scanFrom call.stop cs)
      exact List.dropWhile_cons_of_neg (by simpa using bound)
  rw [assemble, found]
  simp only [swallowed]
  rfl

/-- A call is one lexeme, whatever stands behind its closing parenthesis. -/
theorem ofChars_call {name xs behind : List Char} (isPath : IsPath name)
    (plain : Keyword.ofText? (String.ofList name) = none) (identifier : isIdentifier name = true)
    (alone : ScansAlone xs) (closed : untilClosed .outside 0 (xs ++ ')' :: behind) = some xs)
    (start : Nat) :
    ofChars start (name ++ '(' :: (xs ++ [')']) ++ behind) =
      ⟨start, start + byteLength (name ++ '(' :: (xs ++ [')'])),
          .call (String.ofList name) (argumentsOf xs), behind⟩ ::
        ofChars (start + byteLength (name ++ '(' :: (xs ++ [')']))) behind := by
  have ends : EndsPath ('(' :: (xs ++ [')'] ++ behind)) := by
    intro c first
    cases first
    decide
  obtain ⟨c, rest, rfl, visible, read⟩ := isPath.scan plain ends
  obtain ⟨ls, cut, within⟩ := alone.enclosed behind (start + byteLength (c :: rest))
  have stop : start + byteLength (c :: rest) + byteLength ('(' :: (xs ++ [')'])) =
      start + byteLength (c :: rest ++ '(' :: (xs ++ [')'])) := by
    rw [byteLength_append, Nat.add_assoc]
  have length : byteLength (c :: rest ++ '(' :: (xs ++ [')'])) =
      byteLength (c :: rest) + 2 + byteLength xs := by
    have closing : byteLength [')'] = 1 := rfl
    have opening : byteLength ('(' :: (xs ++ [')'])) = 1 + byteLength (xs ++ [')']) := rfl
    rw [byteLength_append, opening, byteLength_append, closing]
    omega
  have found : (Lexeme.mk start (start + byteLength (c :: rest))
      (.path (String.ofList (c :: rest))) ('(' :: (xs ++ [')'] ++ behind))).call? =
        some ⟨start, start + byteLength (c :: rest ++ '(' :: (xs ++ [')'])),
          .call (String.ofList (c :: rest)) (argumentsOf xs), behind⟩ := by
    simp only [call?, String.toList_ofList, identifier, if_true, List.append_assoc,
      List.singleton_append, closed, Option.map_some, length]
    simp [Nat.add_assoc]
  rw [stop] at cut within
  rw [ofChars, List.append_assoc, List.cons_append, List.cons_append, scanFrom_token visible read,
    cut]
  exact assemble_call found within behind

namespace Spells

variable {xs ys : List Char} {ts us : List Token}

theorem nil : Spells [] [] :=
  fun _ _ _ => ⟨[], rfl, rfl⟩

theorem cons {c : Char} {rest : List Char} {t : Token} (visible : isSpace c = false)
    (read : ∀ behind, Stops behind → scan c (rest ++ (xs ++ behind)) = (t, rest.length))
    (stops : ∀ name, t = .path name → Stops xs) (spells : Spells xs ts) :
    Spells (c :: (rest ++ xs)) (t :: ts) := by
  intro behind ends start
  obtain ⟨ls, tokens, cut⟩ := spells behind ends (start + byteLength (c :: rest))
  have length : byteLength (c :: (rest ++ xs)) = byteLength (c :: rest) + byteLength xs :=
    byteLength_append (c :: rest) xs
  refine ⟨⟨start, start + byteLength (c :: rest), t, xs ++ behind⟩ :: ls, ?_, ?_⟩
  · rw [List.map_cons, tokens]
  · rw [ofChars, List.cons_append, List.append_assoc, scanFrom_token visible (read behind ends),
      assemble_plain (call?_stops fun name path => (stops name path).append ends), length,
      ← Nat.add_assoc]
    exact congrArg _ cut

theorem append (first : Spells xs ts) (second : Spells ys us) (stops : Stops ys) :
    Spells (xs ++ ys) (ts ++ us) := by
  intro behind ends start
  obtain ⟨ls, tokens, cut⟩ := first (ys ++ behind) (stops.append ends) start
  obtain ⟨ms, tokensAgain, cutAgain⟩ := second behind ends (start + byteLength xs)
  refine ⟨ls ++ ms, ?_, ?_⟩
  · rw [List.map_append, tokens, tokensAgain]
  · rw [List.append_assoc, cut, cutAgain, byteLength_append, List.append_assoc, Nat.add_assoc]

theorem blank (spells : Spells xs ts) : Spells (' ' :: xs) ts := by
  intro behind ends start
  obtain ⟨ls, tokens, cut⟩ := spells behind ends (start + 1)
  refine ⟨ls, tokens, ?_⟩
  rw [ofChars, List.cons_append, scanFrom_space rfl, byteLength, ← Nat.add_assoc]
  exact cut

theorem of_piece {t : Token} (piece : IsPiece xs t) : Spells xs [t] := by
  obtain ⟨c, rest, rfl, visible, read⟩ := piece
  have spells := nil.cons visible (fun behind ends => read behind ends) fun _ _ => Stops.nil
  rwa [List.append_nil] at spells

/-- A sign in front of tokens. -/
theorem sign {c : Char} {s : Sign} (visible : isSpace c = false)
    (read : ∀ behind, scan c behind = (.sign s, 0)) (spells : Spells xs ts) :
    Spells (c :: xs) (.sign s :: ts) := by
  have scanned (behind : List Char) (_ : Stops behind) :
      scan c ([] ++ (xs ++ behind)) = (.sign s, ([] : List Char).length) := read _
  exact spells.cons visible scanned nofun

theorem comma (spells : Spells xs ts) : Spells (',' :: xs) (.sign .comma :: ts) :=
  spells.sign rfl fun _ => rfl

theorem openParen (spells : Spells xs ts) : Spells ('(' :: xs) (.sign .openParen :: ts) :=
  spells.sign rfl fun _ => rfl

theorem closeParen (spells : Spells xs ts) : Spells (')' :: xs) (.sign .closeParen :: ts) :=
  spells.sign rfl fun _ => rfl

end Spells

end Lexeme

end RecordQuery
