import RecordQuery.Proofs.Canonical.Origin
import RecordQuery.Proofs.Statement.Shift

namespace RecordQuery

open Token (Steps stepsLength?)

/-- Empty brackets in front of a path in parentheses change nothing. -/
theorem Locator.ofText_emptyBrackets {path steps : List Char} (isSteps : Steps false steps) :
    ofText (String.ofList ('[' :: ']' :: '(' :: (path ++ ')' :: steps))) =
      ofText (String.ofList ('(' :: (path ++ ')' :: steps))) := by
  have closes : Text.EndsVisibly ('(' :: (path ++ [')'])) := by
    intro c last
    rw [← List.cons_append, List.getLast?_concat] at last
    cases last
    rfl
  have ends : Text.EndsVisibly ('(' :: (path ++ ')' :: steps)) := by
    have parts : '(' :: (path ++ ')' :: steps) = '(' :: (path ++ [')']) ++ steps := by simp
    rw [parts]
    exact closes.append isSteps.endsVisibly
  generalize inner : path ++ ')' :: steps = cs at ends
  have plain : Text.trimChars ('(' :: cs) = '(' :: cs :=
    Text.trimChars_of_ends (fun c first => by cases first; rfl) ends
  have bracketed : Text.trimChars ('[' :: ']' :: '(' :: cs) = '[' :: ']' :: '(' :: cs := by
    have brackets : Text.EndsVisibly ['[', ']'] :=
      .of_all (List.forall_mem_cons.mpr ⟨rfl, List.forall_mem_singleton.mpr rfl⟩)
    exact Text.trimChars_of_ends (fun c first => by cases first; rfl) (brackets.append ends)
  have first : readBetween '[' ']' ('[' :: ']' :: '(' :: cs) = (none, '(' :: cs) := rfl
  have second : readBetween '[' ']' ('(' :: cs) = (none, '(' :: cs) := rfl
  unfold ofText
  rw [String.toList_ofList, String.toList_ofList, plain, bracketed]
  simp only [first, second]
  rfl

namespace Statement

open Lexeme (ScansAlone Spells assemble_plain byteLength dropWhile_ofChars_append ofChars ofChars_shift
  scanFrom scanFrom_space scanFrom_token)
open Token (isPiece_keyword isPiece_sign scanPlace_named scanPlace_parens scan_bracket Stops)

/-- The steps behind a path in parentheses are those that a locator goes on with, unless a backtick
in them is never closed. Then they end in front of the point of that name. -/
theorem stepsLength?_or_point (cs : List Char) :
    stepsLength? false cs = some (stepsAhead cs) ∨
      stepsLength? false cs = none ∧ ∃ more, cs.drop (stepsAhead cs) = '.' :: more := by
  have further {c : Char} {rest : List Char} {name : Nat}
      (read : stepsLength? false ('.' :: c :: rest) =
        (stepsLength? false (rest.drop name)).map (2 + name + ·))
      (later : stepsLength? false (rest.drop name) = some (stepsAhead (rest.drop name)) ∨
        stepsLength? false (rest.drop name) = none ∧
          ∃ more, (rest.drop name).drop (stepsAhead (rest.drop name)) = '.' :: more) :
      stepsLength? false ('.' :: c :: rest) = some (2 + name + stepsAhead (rest.drop name)) ∨
        stepsLength? false ('.' :: c :: rest) = none ∧
          ∃ more, ('.' :: c :: rest).drop (2 + name + stepsAhead (rest.drop name)) =
            '.' :: more := by
    rw [read]
    rcases later with same | ⟨refused, more, point⟩
    · rw [same]
      exact .inl rfl
    · rw [refused]
      refine .inr ⟨rfl, more, ?_⟩
      rw [Nat.add_comm 2, Nat.add_assoc, Nat.add_comm 2, ← Nat.add_assoc, List.drop_succ_cons,
        List.drop_succ_cons, ← List.drop_drop]
      exact point
  fun_induction stepsAhead cs with
  | case1 c rest tick name closed ih =>
    refine further ?_ ih
    rw [stepsLength?, if_pos tick, closed]
    rfl
  | case2 c rest tick unclosed =>
    refine .inr ⟨?_, c :: rest, rfl⟩
    rw [stepsLength?, if_pos tick, unclosed]
  | case3 c rest tick inside name ih =>
    refine further ?_ ih
    rw [stepsLength?, if_neg tick, if_pos inside]
    rfl
  | case4 c rest tick outside =>
    refine .inl ?_
    rw [stepsLength?, if_neg tick, if_neg outside]
  | case5 cs other =>
    refine .inl ?_
    rw [stepsLength?.eq_def]
    split
    · exact absurd rfl (other _ _)
    · rfl

/-- A path in parentheses is read up to the end of its steps. -/
theorem pathLocator?_closed {path : List Char} (inside : ∀ c ∈ path, c ≠ ')') (rest : List Char) :
    pathLocator? (path ++ ')' :: rest) =
      some ('(' :: (path ++ ')' :: rest.take (stepsAhead rest))) := by
  have run : Token.runLength (fun c => c != ')') (path ++ ')' :: rest) = path.length := by
    refine Token.runLength_append (fun c member => bne_iff_ne.mpr (inside c member)) fun c first => ?_
    cases first
    rfl
  have closed : path.length < (path ++ ')' :: rest).length := by
    simp only [List.length_append, List.length_cons]
    omega
  have split : path ++ ')' :: rest = (path ++ [')']) ++ rest := by simp
  have length : path.length + 1 = (path ++ [')']).length := by simp
  unfold pathLocator?
  simp only [run, if_pos closed]
  rw [split, length, List.drop_left, List.take_length_add_append]
  simp

theorem exists_scanFrom_select (behind : List Char) :
    ∃ ls, scanFrom 0 ("SELECT * FROM".toList ++ ' ' :: behind) = ls ++ scanFrom 14 behind := by
  have alone : ScansAlone "SELECT * FROM".toList :=
    (ScansAlone.of_piece (isPiece_keyword .select)).append
      ((ScansAlone.of_piece (isPiece_sign .star)).append
        (ScansAlone.of_piece (isPiece_keyword .fromWord)).blank (Stops.blank _)).blank
      (Stops.blank _)
  obtain ⟨ls, cut, -⟩ := alone (' ' :: behind) (Stops.blank _) 0
  exact ⟨ls, cut.trans (congrArg (ls ++ ·) (scanFrom_space rfl _ _))⟩

theorem exists_ofChars_select (behind : List Char) :
    ∃ ls, ls.map Lexeme.token = [.keyword .select, .sign .star, .keyword .fromWord] ∧
      ofChars 0 ("SELECT * FROM".toList ++ ' ' :: behind) = ls ++ ofChars 14 behind := by
  have spells : Spells "SELECT * FROM".toList
      [.keyword .select, .sign .star, .keyword .fromWord] :=
    (Spells.of_piece (isPiece_keyword .select)).append
      ((Spells.of_piece (isPiece_sign .star)).append
        (Spells.of_piece (isPiece_keyword .fromWord)).blank (Stops.blank _)).blank (Stops.blank _)
  obtain ⟨ls, tokens, cut⟩ := spells (' ' :: behind) (Stops.blank _) 0
  have blank : ofChars (0 + byteLength "SELECT * FROM".toList) (' ' :: behind) =
      ofChars 14 behind := congrArg Lexeme.assemble (scanFrom_space rfl _ _)
  exact ⟨ls, tokens, cut.trans (congrArg (ls ++ ·) blank)⟩

theorem scanFrom_openParen (start : Nat) (cs : List Char) :
    scanFrom start ('(' :: cs) = ⟨start, start + 1, .sign .openParen, cs⟩ :: scanFrom (start + 1) cs := by
  have scan : Token.scan '(' ([] ++ cs) = (.sign .openParen, ([] : List Char).length) := rfl
  exact scanFrom_token rfl scan start

theorem ofChars_openParen (start : Nat) (cs : List Char) :
    ofChars start ('(' :: cs) = ⟨start, start + 1, .sign .openParen, cs⟩ :: ofChars (start + 1) cs := by
  rw [ofChars, scanFrom_openParen]
  exact assemble_plain rfl _

/-- Behind the locator of a path in parentheses lexemes begin anew, unless one of them begins in
front of its end and goes on behind it. -/
theorem dropWhile_parens {path rest : List Char}
    (clean : ∀ l, l ∈ scanFrom 0 ("SELECT * FROM".toList ++ ' ' :: '(' :: (path ++ ')' :: rest)) ∨
        l ∈ ofChars 0 ("SELECT * FROM".toList ++ ' ' :: '(' :: (path ++ ')' :: rest)) →
      ¬ l.Crosses (14 + byteLength ('(' :: (path ++ ')' :: rest.take (stepsAhead rest))))) :
    ((ofChars 15 (path ++ ')' :: rest)).dropWhile fun l =>
        l.start < 14 + byteLength ('(' :: (path ++ ')' :: rest.take (stepsAhead rest)))) =
      ofChars (14 + byteLength ('(' :: (path ++ ')' :: rest.take (stepsAhead rest))))
        (rest.drop (stepsAhead rest)) := by
  have split : path ++ ')' :: rest =
      (path ++ ')' :: rest.take (stepsAhead rest)) ++ rest.drop (stepsAhead rest) := by simp
  have place : 14 + byteLength ('(' :: (path ++ ')' :: rest.take (stepsAhead rest))) =
      15 + byteLength (path ++ ')' :: rest.take (stepsAhead rest)) := (Nat.add_assoc 14 1 _).symm
  obtain ⟨raw, scans⟩ := exists_scanFrom_select ('(' :: (path ++ ')' :: rest))
  obtain ⟨ls, -, cut⟩ := exists_ofChars_select ('(' :: (path ++ ')' :: rest))
  rw [scans, cut, scanFrom_openParen, ofChars_openParen] at clean
  rw [place] at clean ⊢
  rw [split] at clean ⊢
  refine dropWhile_ofChars_append fun l member => clean l ?_
  exact member.imp (fun here => List.mem_append_right _ (List.mem_cons_of_mem _ here))
    fun here => List.mem_append_right _ (List.mem_cons_of_mem _ here)

namespace Reader

theorem endsIn_append {r next : Reader} {ls : List Lexeme} (reads : r.readAll ls = some next)
    (rest : List Lexeme) (n : NestedDraft) : r.EndsIn (ls ++ rest) n ↔ next.EndsIn rest n := by
  simp only [EndsIn, readAll_of_append reads]

/-- Behind a path in parentheses all lexemes are passed over that begin inside of the locator. -/
theorem endsIn_pastSource (r : Reader) (stop : Nat) (ls : List Lexeme) (n : NestedDraft) :
    (r.await (.pastSource stop)).EndsIn ls n ↔
      (r.await .clause).EndsIn (ls.dropWhile fun l => l.start < stop) n := by
  induction ls with
  | nil =>
    constructor
    · rintro ⟨_, last, ⟨⟩, finishes⟩
      exact ⟨_, last, rfl, finishes⟩
    · rintro ⟨_, last, ⟨⟩, finishes⟩
      exact ⟨_, last, rfl, finishes⟩
  | cons l rest ih =>
    by_cases inside : l.start < stop
    · have passed : (r.await (.pastSource stop)).readAll [l] = some (r.await (.pastSource stop)) := by
        have met : (r.await (.pastSource stop)).place.meet l =
            (r.await (.pastSource stop)).place.goOn (.pastSource stop) := if_pos inside
        rw [readAll, read, met]
        rfl
      rw [List.dropWhile_cons_of_pos (by simpa using inside)]
      exact (endsIn_append passed rest n).trans ih
    · have met : (r.await (.pastSource stop)).place.meet l = (r.await .clause).place.meet l := by
        refine (if_neg inside).trans ?_
        exact (r.place.atClause_await (.pastSource stop) l).trans
          (r.place.atClause_await .clause l).symm
      have same : (r.await (.pastSource stop)).read l = (r.await .clause).read l := by
        rw [read, met]
        rfl
      rw [List.dropWhile_cons_of_neg (by simpa using inside)]
      simp only [EndsIn, readAll, same]

/-- The reader of a text that begins with all fields and goes on with a source. -/
def atSource (settings : QuerySettings) : Reader :=
  ⟨⟨[.source, .selectFields], [], .source⟩, .ofDraft (Draft.all (.empty settings))⟩

theorem endsIn_start (settings : QuerySettings) (behind : List Char) (n : NestedDraft) :
    (start settings).EndsIn (ofChars 0 ("SELECT * FROM".toList ++ ' ' :: behind)) n ↔
      (atSource settings).EndsIn (ofChars 14 behind) n := by
  obtain ⟨ls, tokens, cut⟩ := exists_ofChars_select behind
  rcases ls with _ | ⟨⟨_, _, _, _⟩, _ | ⟨⟨_, _, _, _⟩, _ | ⟨⟨_, _, _, _⟩, _ | ⟨_, _⟩⟩⟩⟩ <;> cases tokens
  rw [cut]
  exact endsIn_append rfl _ n

/-- The reader behind a source. -/
def behindSource (settings : QuerySettings) (text : List Char) : Reader :=
  ⟨⟨[.source, .selectFields], [], .clause⟩,
    .ofDraft ((Draft.all (.empty settings)).setSource (String.ofList text))⟩

section

variable (settings : QuerySettings) {path : List Char} (inside : ∀ c ∈ path, c ≠ ')')
  (n : NestedDraft)
include inside

/-- A path in parentheses is followed by the lexemes that begin behind its locator. -/
theorem endsIn_parens (rest : List Char) :
    (atSource settings).EndsIn (ofChars 14 ('(' :: (path ++ ')' :: rest))) n ↔
      (behindSource settings ('(' :: (path ++ ')' :: rest.take (stepsAhead rest)))).EndsIn
        ((ofChars 15 (path ++ ')' :: rest)).dropWhile fun l =>
          l.start < 14 + byteLength ('(' :: (path ++ ')' :: rest.take (stepsAhead rest)))) n := by
  have met : (atSource settings).place.meet ⟨14, 15, .sign .openParen, path ++ ')' :: rest⟩ =
      (atSource settings).place.step 14
        (.source (String.ofList ('(' :: (path ++ ')' :: rest.take (stepsAhead rest)))))
        (.pastSource (14 + byteLength ('(' :: (path ++ ')' :: rest.take (stepsAhead rest))))) := by
    simp only [Place.meet, Reader.atSource, Place.atSource, pathLocator?_closed inside]
  have reads : (atSource settings).readAll [⟨14, 15, .sign .openParen, path ++ ')' :: rest⟩] =
      some ((behindSource settings ('(' :: (path ++ ')' :: rest.take (stepsAhead rest)))).await
        (.pastSource (14 + byteLength ('(' :: (path ++ ')' :: rest.take (stepsAhead rest)))))) := by
    rw [readAll, read, met]
    rfl
  rw [ofChars_openParen, ← List.singleton_append, endsIn_append reads, endsIn_pastSource]
  rfl

/-- A locator whose steps come to an end is followed by what is behind it. -/
theorem endsIn_locator {steps tail : List Char}
    (closed : stepsLength? false (steps ++ tail) = some steps.length) :
    (atSource settings).EndsIn
        (ofChars 14 ('[' :: ']' :: '(' :: (path ++ ')' :: (steps ++ tail)))) n ↔
      (behindSource settings ('[' :: ']' :: '(' :: (path ++ ')' :: steps))).EndsIn
        (ofChars (14 + byteLength ('[' :: ']' :: '(' :: (path ++ ')' :: steps))) tail) n := by
  have parts : ']' :: '(' :: (path ++ ')' :: (steps ++ tail)) =
      (']' :: '(' :: (path ++ ')' :: steps)) ++ tail := by simp
  have scan : Token.scan '[' ((']' :: '(' :: (path ++ ')' :: steps)) ++ tail) =
      (.locator (String.ofList ('[' :: ']' :: '(' :: (path ++ ')' :: steps))),
        (']' :: '(' :: (path ++ ')' :: steps)).length) := by
    rw [← parts]
    exact (scan_bracket (List.forall_mem_nil _) _).trans (scanPlace_named [']'] inside closed)
  have scans := scanFrom_token rfl scan 14
  rw [parts, ofChars, scans, assemble_plain rfl, ← List.singleton_append]
  exact endsIn_append rfl _ n

/-- A locator with a backtick that is never closed is none. -/
theorem not_endsIn_endless {rest : List Char} (unclosed : stepsLength? false rest = none) :
    ¬ (atSource settings).EndsIn (ofChars 14 ('[' :: ']' :: '(' :: (path ++ ')' :: rest))) n := by
  have scan : Token.scan '[' ((']' :: '(' :: (path ++ ')' :: rest)) ++ []) =
      Token.unknownToEnd '[' (']' :: '(' :: (path ++ ')' :: rest)) := by
    have parens := @scanPlace_parens [']'] path rest inside
    rw [unclosed] at parens
    rw [List.append_nil]
    exact (scan_bracket (List.forall_mem_nil _) _).trans parens
  have scans := scanFrom_token rfl scan 14
  rw [List.append_nil] at scans
  rw [ofChars, scans, assemble_plain rfl]
  intro ends
  obtain ⟨next, reads, -⟩ := ends.cons
  cases reads

end

/-- No clause begins with a point. -/
theorem not_endsIn_point (settings : QuerySettings) (text : List Char) (start : Nat)
    (more : List Char) (n : NestedDraft) :
    ¬ (behindSource settings text).EndsIn (ofChars start ('.' :: more)) n := by
  have foreign := Token.isForeign_scan (.inl rfl) more
  rw [ofChars, Lexeme.scanFrom, if_neg (by decide)]
  dsimp only
  rw [assemble_plain (Lexeme.call?_foreign foreign)]
  intro ends
  obtain ⟨next, reads, -⟩ := ends.cons
  exact Place.meet_foreign foreign rfl (move_some reads).1

/-- What makes a text a query does not depend on where the text ends. -/
theorem ofText_iff {settings : QuerySettings} {text : String} {q : Query} :
    Query.ofText settings text = .ok q ↔
      ∃ n, (start settings).EndsIn (Lexeme.ofText text) n ∧ n.outermost.build = .ok q := by
  constructor
  · exact exists_of_ofText
  · rintro ⟨n, ⟨r, stop, reads, finishes⟩, built⟩
    have anywhere (other : Nat) : r.finish other = some n := by
      rw [← finish_shift 0 r other stop, finish_shift 0 r stop stop]
      exact finishes
    exact ofText_of_readAll reads anywhere built

/-- Two readers that differ in empty brackets in front of a path come to the same end. -/
theorem endsIn_parens_iff {path rest : List Char} (settings : QuerySettings)
    (inside : ∀ c ∈ path, c ≠ ')')
    (clean : ∀ l, l ∈ scanFrom 0 ("SELECT * FROM".toList ++ ' ' :: '(' :: (path ++ ')' :: rest)) ∨
        l ∈ ofChars 0 ("SELECT * FROM".toList ++ ' ' :: '(' :: (path ++ ')' :: rest)) →
      ¬ l.Crosses (14 + byteLength ('(' :: (path ++ ')' :: rest.take (stepsAhead rest)))))
    (n : NestedDraft) :
    (atSource settings).EndsIn (ofChars 14 ('(' :: (path ++ ')' :: rest))) n ↔
      (atSource settings).EndsIn (ofChars 14 ('[' :: ']' :: '(' :: (path ++ ')' :: rest))) n := by
  rw [endsIn_parens settings inside, dropWhile_parens clean]
  rcases stepsLength?_or_point rest with closed | ⟨unclosed, more, point⟩
  · obtain ⟨steps, tail, rfl, isSteps, length⟩ := Token.exists_steps closed
    rw [length] at closed
    rw [endsIn_locator settings inside n closed, length, List.take_left, List.drop_left]
    have shifted : behindSource settings ('[' :: ']' :: '(' :: (path ++ ')' :: steps)) =
        (behindSource settings ('(' :: (path ++ ')' :: steps))).shift 2 := by
      simp only [behindSource, Draft.setSource, Locator.ofText_emptyBrackets isSteps]
      rfl
    have place : 14 + byteLength ('[' :: ']' :: '(' :: (path ++ ')' :: steps)) =
        14 + byteLength ('(' :: (path ++ ')' :: steps)) + 2 := by
      change 14 + (1 + (1 + byteLength ('(' :: (path ++ ')' :: steps)))) = _
      omega
    rw [shifted, place, ofChars_shift 2]
    exact (endsIn_shift 2 _).symm
  · rw [point]
    exact iff_of_false (not_endsIn_point _ _ _ _ _) (not_endsIn_endless settings inside n unclosed)

end Reader

end Statement

namespace Query

open Statement (Reader stepsAhead)

/-- The byte behind the locator of a query of all fields that names its source by a path in
parentheses. -/
def locatorStop (path rest : String) : Nat :=
  Lexeme.byteLength ("SELECT * FROM (" ++ path ++ ")").toList +
    Lexeme.byteLength (rest.toList.take (stepsAhead rest.toList))

/-- A path in parentheses is the same source with empty brackets in front of it and without them,
and in both spellings the same clauses follow, as long as nothing that begins in front of the end
of the locator goes on behind it. -/
theorem ofText_brackets (settings : QuerySettings) {path rest : String}
    (closed : ')' ∉ path.toList)
    (clean : ∀ l, l ∈ Lexeme.scanFrom 0 ("SELECT * FROM (" ++ path ++ ")" ++ rest).toList ∨
        l ∈ Lexeme.ofText ("SELECT * FROM (" ++ path ++ ")" ++ rest) →
      ¬ l.Crosses (locatorStop path rest)) :
    (ofText settings ("SELECT * FROM (" ++ path ++ ")" ++ rest)).toOption =
      (ofText settings ("SELECT * FROM [](" ++ path ++ ")" ++ rest)).toOption := by
  have plain : ("SELECT * FROM (" ++ path ++ ")" ++ rest).toList =
      "SELECT * FROM".toList ++ ' ' :: '(' :: (path.toList ++ ')' :: rest.toList) := by
    simp
  have bracketed : ("SELECT * FROM [](" ++ path ++ ")" ++ rest).toList =
      "SELECT * FROM".toList ++ ' ' :: '[' :: ']' :: '(' :: (path.toList ++ ')' :: rest.toList) := by
    simp
  have place : locatorStop path rest = 14 + Lexeme.byteLength
      ('(' :: (path.toList ++ ')' :: rest.toList.take (stepsAhead rest.toList))) := by
    have front : ("SELECT * FROM (" ++ path ++ ")").toList =
        "SELECT * FROM (".toList ++ (path.toList ++ [')']) := by simp
    have word : Lexeme.byteLength "SELECT * FROM (".toList = 15 := rfl
    have paren : Lexeme.byteLength [')'] = 1 := rfl
    have parts : '(' :: (path.toList ++ ')' :: rest.toList.take (stepsAhead rest.toList)) =
        ['('] ++ (path.toList ++ ([')'] ++ rest.toList.take (stepsAhead rest.toList))) := rfl
    have opening : Lexeme.byteLength ['('] = 1 := rfl
    rw [locatorStop, front, parts]
    simp only [Lexeme.byteLength_append, word, paren, opening]
    omega
  have inside : ∀ c ∈ path.toList, c ≠ ')' := fun c member same => closed (same ▸ member)
  rw [Lexeme.ofText, plain, place] at clean
  refine Option.ext fun q => ?_
  rw [toOption_eq_some, toOption_eq_some, Reader.ofText_iff, Reader.ofText_iff, Lexeme.ofText,
    Lexeme.ofText, plain, bracketed]
  refine exists_congr fun n => and_congr ?_ Iff.rfl
  exact (Reader.endsIn_start ..).trans
    ((Reader.endsIn_parens_iff settings inside clean n).trans (Reader.endsIn_start ..).symm)

theorem ofText_brackets_steps :
    let path := "data.json"
    let rest := ".items WHERE x = 1"
    (')' ∉ path.toList ∧
      ∀ l, l ∈ Lexeme.scanFrom 0 ("SELECT * FROM (" ++ path ++ ")" ++ rest).toList ∨
          l ∈ Lexeme.ofText ("SELECT * FROM (" ++ path ++ ")" ++ rest) →
        ¬ l.Crosses (locatorStop path rest)) ∧
      (ofText .default ("SELECT * FROM (" ++ path ++ ")" ++ rest)).toOption =
        (ofText .default ("SELECT * FROM [](" ++ path ++ ")" ++ rest)).toOption := by
  intro path rest
  have closed : ')' ∉ path.toList := by decide
  have clean : ∀ l ∈ Lexeme.scanFrom 0 ("SELECT * FROM (" ++ path ++ ")" ++ rest).toList ++
      Lexeme.ofText ("SELECT * FROM (" ++ path ++ ")" ++ rest),
      ¬ l.Crosses (locatorStop path rest) := by
    decide +kernel
  have either := fun l member => clean l (List.mem_append.mpr member)
  exact ⟨⟨closed, either⟩, ofText_brackets .default closed either⟩

/-- A quote in the path begins a lexeme that reaches over the rest of the text, and with it the
condition is passed over behind a path in parentheses alone. -/
theorem not_ofText_brackets : ¬ ∀ (settings : QuerySettings) (path rest : String),
    ')' ∉ path.toList →
      (ofText settings ("SELECT * FROM (" ++ path ++ ")" ++ rest)).toOption =
        (ofText settings ("SELECT * FROM [](" ++ path ++ ")" ++ rest)).toOption := by
  intro same
  have spellings := same .default "a\"b" " WHERE x = 1" (by decide)
  have plain : (ofText .default
      ("SELECT * FROM (" ++ "a\"b" ++ ")" ++ " WHERE x = 1")).toOption.map
        (fun q => q.filter.isEmpty) = some true := by
    decide +kernel
  have bracketed : (ofText .default
      ("SELECT * FROM [](" ++ "a\"b" ++ ")" ++ " WHERE x = 1")).toOption.map
        (fun q => q.filter.isEmpty) = some false := by
    decide +kernel
  rw [spellings, bracketed] at plain
  cases plain

end Query

end RecordQuery
