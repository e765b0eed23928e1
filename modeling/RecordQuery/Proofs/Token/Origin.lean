import RecordQuery.Proofs.Text.Blank
import RecordQuery.Proofs.Token.Balance
import RecordQuery.Proofs.Token.Path

namespace RecordQuery

/-- Whether a token can be nothing in a query but a source. -/
def Token.isForeign : Token → Bool
  | .locator _ => true
  | .unknown _ => true
  | _ => false

theorem Token.isForeign_scan {c : Char} (on : c = '.' ∨ c = '[') (rest : List Char) :
    (scan c rest).1.isForeign = true := by
  rcases on with rfl | rfl
  · rw [scan_other (by decide)]
    rfl
  · change (scanLocator '[' rest).1.isForeign = true
    unfold scanLocator scanPlace
    dsimp only
    split
    · split
      · rfl
      · split <;> rfl
    · rfl

namespace Lexeme

open Token (IsPath)

/-- Whether a path is written as one. One that reads like a keyword stands in front of what can be
nothing but a source. -/
def IsApart (l : Lexeme) (rest : List Lexeme) : Prop :=
  ∀ text, l.token = .path text → IsPath text.toList ∧
    (Keyword.ofText? text = none ∨ ∃ m later, rest = m :: later ∧ m.token.isForeign = true)

/-- Lexemes that are apart from those behind them. -/
inductive AllApart : List Lexeme → Prop
  | nil : AllApart []
  | cons {l : Lexeme} {rest : List Lexeme} : l.IsApart rest → AllApart rest → AllApart (l :: rest)

theorem AllApart.dropWhile {ls : List Lexeme} (apart : AllApart ls) (p : Lexeme → Bool) :
    AllApart (ls.dropWhile p) := by
  induction apart with
  | nil => exact .nil
  | @cons l rest first later ih =>
    rw [List.dropWhile_cons]
    split
    · exact ih
    · exact .cons first later

theorem allApart_scanFrom (start : Nat) (cs : List Char) : AllApart (scanFrom start cs) := by
  induction start, cs using scanFrom.induct with
  | case1 =>
    rw [scanFrom]
    exact .nil
  | case2 start c rest space ih =>
    rw [scanFrom, if_pos space]
    exact ih
  | case3 start c rest space token more scanned stop ih =>
    rw [scanFrom, if_neg space]
    simp only [scanned]
    refine .cons (fun text same => ?_) ih
    obtain rfl : token = .path text := same
    obtain ⟨name, behind, rfl, isPath, rfl, rfl, plain⟩ := Token.exists_isPath scanned
    rw [String.toList_ofList, List.drop_left]
    refine ⟨isPath, plain.imp_right ?_⟩
    rintro ⟨d, first, on⟩
    cases behind with
    | nil => cases first
    | cons e later =>
      cases first
      have visible : Token.isSpace d = false := by rcases on with rfl | rfl <;> rfl
      have foreign := Token.isForeign_scan on later
      rw [scanFrom, if_neg (by simp [visible])]
      exact ⟨_, _, rfl, foreign⟩

theorem call?_foreign {l : Lexeme} (foreign : l.token.isForeign = true) : l.call? = none := by
  unfold call?
  split
  · rename_i name rest token behind
    rw [token] at foreign
    cases foreign
  · rfl

theorem exists_of_call? {l call : Lexeme} (found : l.call? = some call) :
    ∃ name texts inside rest, call.token = .call name texts ∧
      untilClosed .outside 0 rest = some inside ∧ texts = argumentsOf inside := by
  unfold call? at found
  split at found
  · split at found
    · obtain ⟨inside, closed, rfl⟩ := Option.map_eq_some_iff.mp found
      exact ⟨_, _, inside, _, rfl, closed, rfl⟩
    · cases found
  · cases found

theorem AllApart.assemble {ls : List Lexeme} (apart : AllApart ls) :
    AllApart (assemble ls) := by
  induction ls using Lexeme.assemble.induct with
  | case1 =>
    rw [Lexeme.assemble]
    exact .nil
  | case2 l rest noCall ih =>
    obtain _ | ⟨first, later⟩ := apart
    rw [Lexeme.assemble, noCall]
    refine .cons (fun text token => ?_) (ih later)
    obtain ⟨isPath, plain⟩ := first text token
    refine ⟨isPath, plain.imp_right ?_⟩
    rintro ⟨m, ns, rfl, foreign⟩
    rw [Lexeme.assemble, call?_foreign foreign]
    exact ⟨m, _, rfl, foreign⟩
  | case3 l rest call found ih =>
    obtain _ | ⟨first, later⟩ := apart
    rw [Lexeme.assemble, found]
    refine .cons (fun text token => ?_) (ih (later.dropWhile _))
    obtain ⟨name, texts, inside, rest, called, -⟩ := exists_of_call? found
    rw [called] at token
    cases token

/-- The paths of a text are written as such. -/
theorem allApart_ofText (text : String) : AllApart (ofText text) :=
  (allApart_scanFrom 0 text.toList).assemble

section

variable {q q' : Quoting} {depth depth' : Nat} {cs : List Char}

/-- Whether what a reader stands in, if anything, was opened by a quote. -/
def Quoting.IsOpened : Quoting → Prop
  | .outside => True
  | .inside quote => quote = '"' ∨ quote = '\''
  | .escaped quote => quote = '"' ∨ quote = '\''

theorem Quoting.IsOpened.next (opened : q.IsOpened) (c : Char) : (q.next c).IsOpened := by
  cases q with
  | outside =>
    rw [Quoting.next]
    split
    · rename_i quote
      exact quote
    · exact trivial
  | inside quote =>
    rw [Quoting.next]
    split
    · exact opened
    · split
      · exact trivial
      · exact opened
  | escaped quote => exact opened

theorem isOpened_of_pass (opened : q.IsOpened) (passes : pass q depth cs = some (q', depth')) :
    q'.IsOpened := by
  induction cs generalizing q depth with
  | nil =>
    cases passes
    exact opened
  | cons c rest ih =>
    rw [pass] at passes
    split at passes
    · exact ih opened passes
    split at passes
    · split at passes
      · cases passes
      · exact ih opened passes
    split at passes
    · cases passes
    · exact ih (opened.next c) passes

theorem not_mark_of_isBlank {c : Char} (blank : Text.isBlank c = true) :
    c ≠ '(' ∧ c ≠ ')' ∧ c ≠ ',' ∧ c ≠ '"' ∧ c ≠ '\'' ∧ c ≠ '\\' :=
  ⟨Token.ne_of_holds blank rfl, Token.ne_of_holds blank rfl, Token.ne_of_holds blank rfl,
    Token.ne_of_holds blank rfl, Token.ne_of_holds blank rfl, Token.ne_of_holds blank rfl⟩

theorem pass_blank {c : Char} (blank : Text.isBlank c = true) (q : Quoting) (depth : Nat)
    (rest : List Char) : pass q depth (c :: rest) = pass (q.next c) depth rest := by
  obtain ⟨opens, closes, comma, -⟩ := not_mark_of_isBlank blank
  rw [pass, if_neg (by simp [opens]), if_neg (by simp [closes]), if_neg (by simp [comma])]

theorem next_outside {c : Char} (blank : Text.isBlank c = true) :
    Quoting.outside.next c = .outside := by
  obtain ⟨-, -, -, double, single, -⟩ := not_mark_of_isBlank blank
  simp [Quoting.next, double, single]

theorem pass_blanks (blank : ∀ c ∈ cs, Text.isBlank c = true) (depth : Nat) :
    pass .outside depth cs = some (.outside, depth) := by
  induction cs with
  | nil => rfl
  | cons c rest ih =>
    obtain ⟨first, later⟩ := List.forall_mem_cons.mp blank
    rw [pass_blank first, next_outside first, ih later]

/-- Blanks do not lead out of quotes. -/
theorem outside_of_pass_blanks (opened : q.IsOpened) (blank : ∀ c ∈ cs, Text.isBlank c = true)
    (passes : pass q depth cs = some (.outside, depth')) : q = .outside ∧ depth = depth' := by
  induction cs generalizing q with
  | nil =>
    cases passes
    exact ⟨rfl, rfl⟩
  | cons c rest ih =>
    obtain ⟨first, later⟩ := List.forall_mem_cons.mp blank
    obtain ⟨-, -, -, double, single, backslash⟩ := not_mark_of_isBlank first
    rw [pass_blank first] at passes
    obtain ⟨next, same⟩ := ih (opened.next c) later passes
    refine ⟨?_, same⟩
    cases q with
    | outside => rfl
    | escaped quote => cases next
    | inside quote =>
      have other : c ≠ quote := by
        rcases opened with rfl | rfl
        · exact double
        · exact single
      simp [Quoting.next, backslash, other] at next

theorem Solid.of_blanks {front back : List Char} (solid : Solid (front ++ (cs ++ back)))
    (before : ∀ c ∈ front, Text.isBlank c = true) (behind : ∀ c ∈ back, Text.isBlank c = true) :
    Solid cs := by
  rw [Solid, pass_append, pass_blanks before, Option.bind_some, pass_append] at solid
  obtain ⟨⟨q, depth⟩, inside, passes⟩ := Option.bind_eq_some_iff.mp solid
  have opened := isOpened_of_pass (q := .outside) trivial inside
  obtain ⟨rfl, rfl⟩ := outside_of_pass_blanks opened behind passes
  exact inside

end

/-- The arguments of a call are solid. -/
theorem solid_of_mem_argumentsOf {cs inside : List Char} {text : String}
    (closed : untilClosed .outside 0 cs = some inside) (member : text ∈ argumentsOf inside) :
    Solid text.toList := by
  unfold argumentsOf at member
  split at member
  · cases member
  · obtain ⟨part, among, rfl⟩ := List.mem_map.mp member
    have begun : pass .outside 0 (List.reverse []) = some (.outside, 0) := rfl
    have solid := solid_of_mem_splitArguments closed begun part among
    obtain ⟨front, back, same, before, behind⟩ := Text.exists_trimChars part
    rw [same] at solid
    rw [String.toList_ofList]
    exact solid.of_blanks before behind

theorem solid_of_mem_call {whole name text : String} {texts : List String} {l : Lexeme}
    (inside : l ∈ ofText whole) (token : l.token = .call name texts) (member : text ∈ texts) :
    Solid text.toList := by
  rcases of_mem_assemble inside with plain | ⟨first, -, found⟩
  · exact absurd token ((of_mem_scanFrom plain).1 name texts)
  · obtain ⟨_, _, inner, rest, called, closed, rfl⟩ := exists_of_call? found
    rw [called] at token
    cases token
    exact solid_of_mem_argumentsOf closed member

theorem isBlank_of_isSpace {c : Char} (space : Token.isSpace c = true) :
    Text.isBlank c = true := by
  simp only [Token.isSpace, Bool.or_eq_true, beq_iff_eq] at space
  rcases space with ((rfl | rfl) | rfl) | rfl <;> rfl

theorem isBlank_of_scanFrom_nil {start : Nat} {cs : List Char} (empty : scanFrom start cs = []) :
    ∀ c ∈ cs, Text.isBlank c = true := by
  induction start, cs using scanFrom.induct with
  | case1 => exact List.forall_mem_nil _
  | case2 start c rest space ih =>
    rw [scanFrom, if_pos space] at empty
    exact List.forall_mem_cons.mpr ⟨isBlank_of_isSpace space, ih empty⟩
  | case3 start c rest space token more scanned stop ih =>
    rw [scanFrom, if_neg space] at empty
    cases empty

/-- A text that is cut into a single path is that path with blanks around it. -/
theorem exists_of_scanFrom_single {start : Nat} {cs : List Char} {l : Lexeme} {text : String}
    (single : scanFrom start cs = [l]) (token : l.token = .path text) : ∃ front back,
      cs = front ++ (text.toList ++ back) ∧ (∀ c ∈ front, Text.isBlank c = true) ∧
        ∀ c ∈ back, Text.isBlank c = true := by
  induction start, cs using scanFrom.induct with
  | case1 =>
    rw [scanFrom] at single
    cases single
  | case2 start c rest space ih =>
    rw [scanFrom, if_pos space] at single
    obtain ⟨front, back, rfl, before, behind⟩ := ih single
    exact ⟨c :: front, back, rfl, List.forall_mem_cons.mpr ⟨isBlank_of_isSpace space, before⟩,
      behind⟩
  | case3 start c rest space scannedToken more scanned stop ih =>
    rw [scanFrom, if_neg space] at single
    simp only [scanned, List.cons.injEq] at single
    obtain ⟨rfl, empty⟩ := single
    obtain rfl : scannedToken = .path text := token
    obtain ⟨name, behind, rfl, -, rfl, rfl, -⟩ := Token.exists_isPath scanned
    rw [List.drop_left] at empty
    refine ⟨[], behind, ?_, List.forall_mem_nil _, isBlank_of_scanFrom_nil empty⟩
    rw [String.toList_ofList]
    rfl

theorem scanFrom_of_ofText_single {whole : String} {l : Lexeme} (single : ofText whole = [l])
    {text : String} (token : l.token = .path text) : scanFrom 0 whole.toList = [l] := by
  unfold ofText at single
  generalize scanFrom 0 whole.toList = ls at single ⊢
  cases ls with
  | nil =>
    rw [assemble] at single
    cases single
  | cons first rest =>
    rw [assemble] at single
    split at single
    · obtain ⟨rfl, empty⟩ := List.cons.inj single
      cases rest with
      | nil => rfl
      | cons next later =>
        rw [assemble] at empty
        split at empty <;> cases empty
    · rename_i found
      obtain ⟨rfl, -⟩ := List.cons.inj single
      obtain ⟨_, _, _, _, called, -⟩ := exists_of_call? found
      rw [called] at token
      cases token

/-- A path that stands alone in a solid text is solid itself. -/
theorem solid_of_ofText_single {whole text : String} {l : Lexeme} (single : ofText whole = [l])
    (token : l.token = .path text) (solid : Solid whole.toList) : Solid text.toList := by
  have scanned := scanFrom_of_ofText_single single token
  obtain ⟨front, back, same, before, behind⟩ := exists_of_scanFrom_single scanned token
  rw [same] at solid
  exact solid.of_blanks before behind

end Lexeme

end RecordQuery
