import RecordQuery.Text.Blank
import RecordQuery.Token.Scan

namespace RecordQuery

/-- A token with the place where it stands in the text, from its first byte up to the byte behind
its last one, and with the text behind it. -/
structure Lexeme where
  start : Nat
  stop : Nat
  token : Token
  behind : List Char
  deriving DecidableEq

namespace Lexeme

/-- The number of bytes that characters take up in UTF-8. -/
def byteLength : List Char → Nat
  | [] => 0
  | c :: rest => c.utf8Size + byteLength rest

/-- The tokens of a text that begins at a byte. -/
def scanFrom (start : Nat) (cs : List Char) : List Lexeme :=
  match cs with
  | [] => []
  | c :: rest =>
    if Token.isSpace c then scanFrom (start + c.utf8Size) rest
    else
      let (token, more) := Token.scan c rest
      let stop := start + c.utf8Size + byteLength (rest.take more)
      ⟨start, stop, token, rest.drop more⟩ :: scanFrom stop (rest.drop more)
termination_by cs.length
decreasing_by
  · simp
  · simp only [List.length_drop, List.length_cons]
    omega

/-- Where a reader stands between quotes: outside of them, inside of a kind of quote, or behind a
backslash in it. -/
inductive Quoting where
  | outside
  | inside (quote : Char)
  | escaped (quote : Char)
  deriving DecidableEq, Repr

/-- The state behind one more character. -/
def Quoting.next (q : Quoting) (c : Char) : Quoting :=
  match q with
  | .outside => if c = '"' ∨ c = '\'' then .inside c else .outside
  | .inside quote =>
    if c = '\\' then .escaped quote else if c = quote then .outside else .inside quote
  | .escaped quote => .inside quote

/-- The text up to the parenthesis that closes the one in front of it. Parentheses between quotes
do not count, and `depth` more have been opened since. -/
def untilClosed (q : Quoting) (depth : Nat) : List Char → Option (List Char)
  | [] => none
  | c :: rest =>
    if q = .outside ∧ c = ')' then
      match depth with
      | 0 => some []
      | n + 1 => (untilClosed q n rest).map (c :: ·)
    else if q = .outside ∧ c = '(' then (untilClosed q (depth + 1) rest).map (c :: ·)
    else (untilClosed (q.next c) depth rest).map (c :: ·)

/-- The parts between the commas that stand neither in parentheses nor between quotes. The part
being read is kept reversed. -/
def splitArguments (q : Quoting) (depth : Nat) (part : List Char) : List Char → List (List Char)
  | [] => [part.reverse]
  | c :: rest =>
    if q = .outside ∧ c = '(' then splitArguments q (depth + 1) (c :: part) rest
    else if q = .outside ∧ c = ')' then splitArguments q (depth - 1) (c :: part) rest
    else if q = .outside ∧ c = ',' ∧ depth = 0 then part.reverse :: splitArguments q 0 [] rest
    else splitArguments (q.next c) depth (c :: part) rest

/-- The arguments of a call as they are written, without the blanks around them. Blanks alone are
no argument. -/
def argumentsOf (cs : List Char) : List String :=
  if (Text.trimChars cs).isEmpty then []
  else (splitArguments .outside 0 [] cs).map fun part => String.ofList (Text.trimChars part)

/-- Whether a text can be the name of a function. -/
def isIdentifier : List Char → Bool
  | [] => false
  | c :: rest => (c.isAlpha || c == '_') && rest.all fun d => d.isAlphanum || d == '_'

/-- The call that a name is the beginning of: a parenthesis stands right behind the name and is
closed again. -/
def call? (l : Lexeme) : Option Lexeme :=
  match l.token, l.behind with
  | .path name, '(' :: rest =>
    if isIdentifier name.toList then
      (untilClosed .outside 0 rest).map fun inside =>
        ⟨l.start, l.stop + 2 + byteLength inside, .call name (argumentsOf inside),
          rest.drop (inside.length + 1)⟩
    else none
  | _, _ => none

/-- Puts the tokens of calls together. What begins inside of a call belongs to it. -/
def assemble (lexemes : List Lexeme) : List Lexeme :=
  match lexemes with
  | [] => []
  | l :: rest =>
    match l.call? with
    | none => l :: assemble rest
    | some call => call :: assemble (rest.dropWhile fun next => next.start < call.stop)
termination_by lexemes.length
decreasing_by
  · simp
  · have bound := (List.dropWhile_sublist (l := rest) fun next => next.start < call.stop).length_le
    simp only [List.length_cons]
    omega

/-- The lexemes of a text. -/
def ofText (text : String) : List Lexeme :=
  assemble (scanFrom 0 text.toList)

theorem length_of_mem_splitArguments {q : Quoting} {depth : Nat} {part cs p : List Char}
    (member : p ∈ splitArguments q depth part cs) : p.length ≤ part.length + cs.length := by
  induction cs generalizing q depth part with
  | nil =>
    simp only [splitArguments, List.mem_singleton] at member
    simp [member]
  | cons c rest ih =>
    simp only [splitArguments] at member
    split at member
    · have := ih member
      simp only [List.length_cons] at this ⊢
      omega
    split at member
    · have := ih member
      simp only [List.length_cons] at this ⊢
      omega
    split at member
    · rcases List.mem_cons.mp member with rfl | later
      · simp
      · have := ih later
        simp only [List.length_nil, List.length_cons] at this ⊢
        omega
    · have := ih member
      simp only [List.length_cons] at this ⊢
      omega

theorem length_of_mem_argumentsOf {cs : List Char} {text : String}
    (member : text ∈ argumentsOf cs) :
    text.toList.length ≤ cs.length := by
  unfold argumentsOf at member
  split at member
  · simp at member
  · obtain ⟨part, among, rfl⟩ := List.mem_map.mp member
    have whole := length_of_mem_splitArguments among
    have trimmed := Text.length_trimChars_le part
    simp only [String.toList_ofList, List.length_nil] at whole ⊢
    omega

theorem length_untilClosed_lt {q : Quoting} {depth : Nat} {cs inside : List Char}
    (closed : untilClosed q depth cs = some inside) : inside.length < cs.length := by
  induction cs generalizing q depth inside with
  | nil => simp [untilClosed] at closed
  | cons c rest ih =>
    simp only [untilClosed] at closed
    split at closed
    · cases depth with
      | zero =>
        simp only [Option.some.injEq] at closed
        simp [← closed]
      | succ n =>
        obtain ⟨tail, shorter, rfl⟩ := Option.map_eq_some_iff.mp closed
        have := ih shorter
        simp only [List.length_cons]
        omega
    split at closed
    · obtain ⟨tail, shorter, rfl⟩ := Option.map_eq_some_iff.mp closed
      have := ih shorter
      simp only [List.length_cons]
      omega
    · obtain ⟨tail, shorter, rfl⟩ := Option.map_eq_some_iff.mp closed
      have := ih shorter
      simp only [List.length_cons]
      omega

theorem length_argument_of_call? {l call : Lexeme} {name text : String} {arguments : List String}
    (found : l.call? = some call) (token : call.token = .call name arguments)
    (member : text ∈ arguments) : text.toList.length < l.behind.length := by
  unfold call? at found
  split at found
  · rename_i _ rest _ atBehind
    split at found
    · obtain ⟨inside, closed, rfl⟩ := Option.map_eq_some_iff.mp found
      simp only [Token.call.injEq] at token
      rw [← token.2] at member
      have bound := length_of_mem_argumentsOf member
      have shorter := length_untilClosed_lt closed
      simp only [atBehind, List.length_cons]
      omega
    · simp at found
  · simp at found

theorem of_mem_scanFrom {start : Nat} {cs : List Char} {l : Lexeme}
    (member : l ∈ scanFrom start cs) :
    (∀ name arguments, l.token ≠ .call name arguments) ∧ l.behind.length < cs.length := by
  induction start, cs using scanFrom.induct with
  | case1 => simp [scanFrom] at member
  | case2 start c rest space ih =>
    rw [scanFrom, if_pos space] at member
    have := ih member
    exact ⟨this.1, by simp only [List.length_cons]; omega⟩
  | case3 start c rest space token more scanned stop ih =>
    rw [scanFrom, if_neg space] at member
    simp only [scanned] at member
    rcases List.mem_cons.mp member with rfl | later
    · refine ⟨fun name arguments same => ?_, ?_⟩
      · exact Token.scan_ne_call c rest name arguments (by rw [scanned]; exact same)
      · simp only [List.length_drop, List.length_cons]
        omega
    · have := ih later
      simp only [List.length_drop] at this
      exact ⟨this.1, by simp only [List.length_cons]; omega⟩

theorem of_mem_assemble {lexemes : List Lexeme} {l : Lexeme} (member : l ∈ assemble lexemes) :
    l ∈ lexemes ∨ ∃ first ∈ lexemes, first.call? = some l := by
  induction lexemes using assemble.induct with
  | case1 => simp [assemble] at member
  | case2 first rest noCall ih =>
    rw [assemble, noCall] at member
    rcases List.mem_cons.mp member with rfl | later
    · simp
    · rcases ih later with found | ⟨other, among, found⟩
      · exact Or.inl (List.mem_cons_of_mem _ found)
      · exact Or.inr ⟨other, List.mem_cons_of_mem _ among, found⟩
  | case3 first rest call isCall ih =>
    rw [assemble, isCall] at member
    have sub : ∀ x, x ∈ rest.dropWhile (fun next => decide (next.start < call.stop)) → x ∈ rest :=
      fun x inside => (List.dropWhile_sublist _).mem inside
    rcases List.mem_cons.mp member with rfl | later
    · exact Or.inr ⟨first, List.mem_cons_self .., isCall⟩
    · rcases ih later with found | ⟨other, among, found⟩
      · exact Or.inl (List.mem_cons_of_mem _ (sub _ found))
      · exact Or.inr ⟨other, List.mem_cons_of_mem _ (sub _ among), found⟩

/-- The arguments of a call are shorter than the text that the call stands in. -/
theorem length_argument_lt {whole text name : String} {arguments : List String} {l : Lexeme}
    (member : l ∈ ofText whole) (token : l.token = .call name arguments)
    (among : text ∈ arguments) :
    text.toList.length < whole.toList.length := by
  rcases of_mem_assemble member with plain | ⟨first, inside, found⟩
  · exact absurd token ((of_mem_scanFrom plain).1 name arguments)
  · have shorter := length_argument_of_call? found token among
    have behind := (of_mem_scanFrom inside).2
    omega

end Lexeme

end RecordQuery
