import RecordQuery.Proofs.FieldPath.Comma
import RecordQuery.Proofs.Token.Origin

namespace RecordQuery

open Token (IsMark IsPath IsQuotedName Steps inName startsName)

namespace FieldPath

/-- A name as it is written, and what it is: any text without backticks stands between two of them,
and a text in which no name ends stands alone unless it begins with a backtick. -/
inductive IsName : List Char → String → Prop
  | quoted {name : List Char} : IsQuotedName name →
      IsName ('\x60' :: (name ++ ['\x60'])) (String.ofList name)
  | bare {c : Char} {name : List Char} : isBacktick c = false →
      (∀ d ∈ c :: name, endsName d = false) → IsName (c :: name) (String.ofList (c :: name))

/-- A component with the segments it stands for. Only behind the first one a mark of iteration needs
no name. -/
inductive IsComponent (first : Bool) : List Char → List Segment → Prop
  | name {cs : List Char} {name : String} : IsName cs name → IsComponent first cs [.key name]
  | marked {cs : List Char} {name : String} : IsName cs name →
      IsComponent first (cs ++ ['[', ']']) [.key name, .each]
  | mark : first = false → IsComponent first ['[', ']'] [.each]

/-- Components with points between them, and the segments of all of them in order. -/
inductive Denotes : Bool → List Char → List Segment → Prop
  | last {first : Bool} {cs : List Char} {segments : List Segment} :
      IsComponent first cs segments → Denotes first cs segments
  | more {first : Bool} {cs rest : List Char} {segments later : List Segment} :
      IsComponent first cs segments → Denotes false rest later →
      Denotes first (cs ++ '.' :: rest) (segments ++ later)

/-- What the reader does behind a name, or where there is none. -/
def segmentsBehind (first : Bool) (name : Option String) (behind : List Char) :
    Option (List Segment) :=
  match behind with
  | '[' :: ']' :: '.' :: after =>
    if first && name.isNone then none
    else (readSegments false after).map fun tail => nameSegments name ++ .each :: tail
  | ['[', ']'] => if first && name.isNone then none else some (nameSegments name ++ [.each])
  | '.' :: after =>
    if name.isNone then none
    else (readSegments false after).map fun tail => nameSegments name ++ tail
  | [] => if name.isNone then none else some (nameSegments name)
  | _ => none

section

variable {first : Bool} {cs text behind : List Char} {segments : List Segment}

theorem readSegments_of_readName {name : Option String}
    (named : readName cs = some (name, behind)) :
    readSegments first cs = segmentsBehind first name behind := by
  rw [readSegments.eq_def]
  split
  all_goals
    rename_i found
    cases named.symm.trans found
  case h_6 marked mark point =>
    rw [segmentsBehind]
    · exact fun after same => marked after (List.cons.inj same).1 (List.cons.inj same).2
    · exact fun same => mark (List.cons.inj same).1 (List.cons.inj same).2
    · exact fun after same => point (List.cons.inj same).1
    · exact List.cons_ne_nil _ _
  all_goals rfl

/-- A name is read up to where it ends. -/
theorem IsName.readName {name : String} (isName : IsName text name)
    (ends : ∀ c ∈ behind.head?, endsName c = true) :
    readName (text ++ behind) = some (some name, behind) := by
  cases isName with
  | quoted quoted =>
    rw [List.cons_append, List.append_assoc]
    exact readName_quoted quoted behind
  | bare tick bare => exact readName_bare tick bare ends

/-- What is read as a name is one, and nothing is read only where one would be empty. -/
theorem exists_of_readName {name : Option String}
    (read : FieldPath.readName cs = some (name, behind)) :
    (∃ s text, name = some s ∧ IsName text s ∧ cs = text ++ behind) ∨
      name = none ∧ cs = behind := by
  cases cs with
  | nil =>
    cases read
    exact .inr ⟨rfl, rfl⟩
  | cons c rest =>
    by_cases tick : isBacktick c = true
    · obtain rfl : c = '\x60' := beq_iff_eq.mp tick
      obtain ⟨inside, after, rfl, all, ends, -⟩ := Token.exists_run (fun d => !isBacktick d) rest
      have quoted : IsQuotedName inside := fun d member => by simpa using all d member
      cases after with
      | nil =>
        rw [List.append_nil, readName_unclosed quoted] at read
        cases read
      | cons d after =>
        obtain rfl : d = '\x60' := by simpa [isBacktick] using ends d rfl
        rw [readName_quoted quoted] at read
        cases read
        exact .inl ⟨_, _, rfl, .quoted quoted, by simp⟩
    · have plain : isBacktick c = false := by simpa using tick
      by_cases stops : endsName c = true
      · simp only [FieldPath.readName, plain, stops, Bool.false_eq_true, if_false, if_true] at read
        cases read
        exact .inr ⟨rfl, rfl⟩
      · obtain ⟨inside, after, rfl, all, ends, -⟩ := Token.exists_run (fun d => !endsName d) rest
        have bare : ∀ d ∈ c :: inside, endsName d = false :=
          List.forall_mem_cons.mpr
            ⟨by simpa using stops, fun d member => by simpa using all d member⟩
        rw [readName_bare plain bare fun d head => by simpa using ends d head] at read
        cases read
        exact .inl ⟨_, _, rfl, .bare plain bare, rfl⟩

/-- A component is read up to its end or up to the point behind it. -/
theorem IsComponent.readSegments (component : IsComponent first text segments) :
    readSegments first text = some segments ∧ ∀ rest, readSegments first (text ++ '.' :: rest) =
      (readSegments false rest).map (segments ++ ·) := by
  have point (rest : List Char) : ∀ c ∈ ('.' :: rest).head?, endsName c = true := by
    rintro c ⟨⟩
    rfl
  have bracket (rest : List Char) : ∀ c ∈ ('[' :: rest).head?, endsName c = true := by
    rintro c ⟨⟩
    rfl
  cases component with
  | @name _ s isName =>
    have alone : FieldPath.readName (text ++ []) = some (some s, []) := isName.readName nofun
    rw [List.append_nil] at alone
    exact ⟨readSegments_of_readName alone,
      fun rest => readSegments_of_readName (isName.readName (point rest))⟩
  | @marked cs s isName =>
    have marked (rest : List Char) : FieldPath.readSegments first (cs ++ '[' :: rest) = _ :=
      readSegments_of_readName (isName.readName (bracket rest))
    refine ⟨(marked [']']).trans ?_, fun rest => ?_⟩
    · cases first <;> rfl
    · rw [List.append_assoc]
      refine (marked (']' :: '.' :: rest)).trans ?_
      cases first <;> rfl
  | mark later =>
    subst later
    have marked (rest : List Char) : FieldPath.readSegments false ('[' :: rest) = _ :=
      readSegments_of_readName rfl
    exact ⟨marked [']'], fun rest => marked (']' :: '.' :: rest)⟩

theorem Denotes.readSegments (denotes : Denotes first cs segments) :
    readSegments first cs = some segments := by
  induction denotes with
  | last component => exact component.readSegments.1
  | more component _ ih =>
    rw [component.readSegments.2, ih]
    rfl

/-- A text that is read is a component, or one with a point and another text that is read behind
it. -/
theorem exists_component (read : FieldPath.readSegments first cs = some segments) :
    IsComponent first cs segments ∨ ∃ text front rest later, IsComponent first text front ∧
      cs = text ++ '.' :: rest ∧ FieldPath.readSegments false rest = some later ∧
        segments = front ++ later := by
  cases named : readName cs with
  | none =>
    rw [readSegments.eq_def] at read
    split at read
    · cases read
    all_goals
      rename_i found
      cases named.symm.trans found
  | some part =>
    obtain ⟨name, behind⟩ := part
    rw [readSegments_of_readName named, segmentsBehind.eq_def] at read
    have nameOrNone := exists_of_readName named
    split at read
    · rename_i after
      split at read
      · cases read
      rename_i allowed
      obtain ⟨later, inner, rfl⟩ := Option.map_eq_some_iff.mp read
      refine .inr ?_
      obtain ⟨s, text, rfl, isName, rfl⟩ | ⟨rfl, rfl⟩ := nameOrNone
      · exact ⟨_, _, after, later, .marked isName, by simp, inner, rfl⟩
      · exact ⟨_, _, after, later, .mark (by simpa using allowed), rfl, inner, rfl⟩
    · split at read
      · cases read
      rename_i allowed
      cases read
      refine .inl ?_
      obtain ⟨s, text, rfl, isName, rfl⟩ | ⟨rfl, rfl⟩ := nameOrNone
      · exact .marked isName
      · exact .mark (by simpa using allowed)
    · rename_i after
      obtain ⟨s, text, rfl, isName, rfl⟩ | ⟨rfl, rfl⟩ := nameOrNone
      · obtain ⟨later, inner, rfl⟩ := Option.map_eq_some_iff.mp read
        exact .inr ⟨text, _, after, later, .name isName, rfl, inner, rfl⟩
      · cases read
    · obtain ⟨s, text, rfl, isName, rfl⟩ | ⟨rfl, rfl⟩ := nameOrNone
      · cases read
        rw [List.append_nil]
        exact .inl (.name isName)
      · cases read
    · cases read

theorem denotes_of_readSegments {first : Bool} {cs : List Char} {segments : List Segment}
    (read : FieldPath.readSegments first cs = some segments) : Denotes first cs segments := by
  obtain component | ⟨text, front, rest, later, component, cut, inner, rfl⟩ := exists_component read
  · exact .last component
  · rw [cut]
    exact .more component (denotes_of_readSegments inner)
termination_by cs.length
decreasing_by
  rw [cut, List.length_append, List.length_cons]
  omega

/-- The reader accepts the texts of the grammar and no others. -/
theorem readSegments_eq_some_iff :
    FieldPath.readSegments first cs = some segments ↔ Denotes first cs segments :=
  ⟨denotes_of_readSegments, Denotes.readSegments⟩

theorem Denotes.ofText? {text : String} (denotes : Denotes true text.toList segments) :
    FieldPath.ofText? text = some ⟨text, segments⟩ := by
  rw [FieldPath.ofText?, denotes.readSegments]
  rfl

theorem ofText_eq_ok_iff {text : String} {path : FieldPath} :
    ofText text = .ok path ↔ path.text = text ∧ Denotes true text.toList path.segments := by
  rw [← readSegments_eq_some_iff, ofText, ofText?]
  cases read : FieldPath.readSegments true text.toList with
  | none => simp
  | some segments =>
    obtain ⟨other, others⟩ := path
    simp only [Option.map_some, Except.ok.injEq, FieldPath.mk.injEq, Option.some.injEq]
    exact and_congr_left' eq_comm

end

end FieldPath

namespace Token

open FieldPath (IsName)

/-- The segment of a mark of iteration, where there is one. -/
def markSegments (mark : List Char) : List Segment :=
  if mark = [] then [] else [.each]

/-- A name as the scanner cuts it off: any text between backticks, or a word. Only the first name of
a path may not begin with a digit. -/
inductive IsCutName (first : Bool) : List Char → String → Prop
  | quoted {name : List Char} : IsQuotedName name →
      IsCutName first ('\x60' :: (name ++ ['\x60'])) (String.ofList name)
  | word {c : Char} {name : List Char} : (if first then startsName c else inName c) = true →
      (∀ d ∈ name, inName d = true) → IsCutName first (c :: name) (String.ofList (c :: name))

/-- What the scanner takes for a path, with the segments in it: names with points between them, and
a mark of iteration behind every name or not. -/
inductive Cuts : Bool → List Char → List Segment → Prop
  | last {first : Bool} {cs mark : List Char} {name : String} : IsCutName first cs name →
      IsMark true mark → Cuts first (cs ++ mark) (.key name :: markSegments mark)
  | more {first : Bool} {cs mark rest : List Char} {name : String} {later : List Segment} :
      IsCutName first cs name → IsMark true mark → Cuts false rest later →
      Cuts first (cs ++ mark ++ '.' :: rest) (.key name :: markSegments mark ++ later)

section

variable {first : Bool} {cs : List Char} {segments : List Segment}

theorem IsCutName.isName {name : String} (cut : IsCutName first cs name) : IsName cs name := by
  cases cut with
  | quoted quoted => exact .quoted quoted
  | @word c name starts all =>
    have letter : inName c = true := by
      cases first with
      | true => exact inName_of_startsName starts
      | false => exact starts
    refine .bare (FieldPath.endsName_of_inName letter).1 (List.forall_mem_cons.mpr ⟨?_, ?_⟩)
    · exact (FieldPath.endsName_of_inName letter).2
    · exact fun d member => (FieldPath.endsName_of_inName (all d member)).2

theorem IsCutName.isComponent {name : String} {mark : List Char} (cut : IsCutName first cs name)
    (isMark : IsMark true mark) :
    FieldPath.IsComponent first (cs ++ mark) (.key name :: markSegments mark) := by
  rcases isMark with rfl | ⟨-, rfl⟩
  · rw [List.append_nil]
    exact .name cut.isName
  · exact .marked cut.isName

theorem Cuts.denotes (cuts : Cuts first cs segments) : FieldPath.Denotes first cs segments := by
  induction cuts with
  | last cut isMark => exact .last (cut.isComponent isMark)
  | more cut isMark _ ih => exact .more (cut.isComponent isMark) ih

/-- The steps behind a name are cut as names of their own. -/
theorem Steps.exists_cuts {steps : List Char} (isSteps : Steps true steps) :
    ∀ {first : Bool} {front mark : List Char} {name : String}, IsCutName first front name →
      IsMark true mark → ∃ segments, Cuts first (front ++ mark ++ steps) segments := by
  induction isSteps with
  | done =>
    intro first front mark name cut isMark
    rw [List.append_nil]
    exact ⟨_, .last cut isMark⟩
  | @quoted inside inner more quoted isInner _ ih =>
    intro first front mark name cut isMark
    have next : IsCutName false _ _ := .quoted quoted
    obtain ⟨later, cuts⟩ := ih next isInner
    simp only [List.cons_append, List.append_assoc, List.nil_append] at cuts
    exact ⟨_, .more cut isMark cuts⟩
  | @bare c inside inner more letter all isInner _ ih =>
    intro first front mark name cut isMark
    have next : IsCutName false _ _ := .word letter all
    obtain ⟨later, cuts⟩ := ih next isInner
    simp only [List.cons_append, List.append_assoc] at cuts
    exact ⟨_, .more cut isMark cuts⟩

theorem IsPath.exists_cuts (isPath : IsPath cs) : ∃ segments, Cuts true cs segments := by
  cases isPath with
  | bare starts all isMark isSteps =>
    have name : IsCutName true _ _ := .word starts all
    obtain ⟨segments, cuts⟩ := isSteps.exists_cuts name isMark
    simp only [List.cons_append, List.append_assoc] at cuts
    exact ⟨segments, cuts⟩
  | quoted quoted isMark isSteps =>
    have name : IsCutName true _ _ := .quoted quoted
    obtain ⟨segments, cuts⟩ := isSteps.exists_cuts name isMark
    simp only [List.cons_append, List.append_assoc, List.nil_append] at cuts
    exact ⟨segments, cuts⟩

end

end Token

theorem Lexeme.AllApart.isPath {ls : List Lexeme} (apart : Lexeme.AllApart ls) {l : Lexeme}
    (member : l ∈ ls) {text : String} (same : l.token = .path text) : IsPath text.toList := by
  induction apart with
  | nil => cases member
  | cons first _ ih =>
    cases member with
    | head => exact (first text same).1
    | tail _ later => exact ih later

/-- The reader of paths accepts the texts of its grammar and no others, with their names and marks
in order, and it never refuses what the scanner takes for a path. -/
theorem FieldPath.ofText_grammar (text : String) :
    (∀ path, ofText text = .ok path ↔ path.text = text ∧ Denotes true text.toList path.segments) ∧
      ∀ l ∈ Lexeme.ofText text, ∀ taken, l.token = .path taken →
        ∃ segments, Token.Cuts true taken.toList segments ∧ Denotes true taken.toList segments ∧
          ofText taken = .ok ⟨taken, segments⟩ := by
  refine ⟨fun path => ofText_eq_ok_iff, fun l member taken same => ?_⟩
  obtain ⟨segments, cuts⟩ := ((Lexeme.allApart_ofText text).isPath member same).exists_cuts
  exact ⟨segments, cuts, cuts.denotes, ofText_eq_ok_iff.mpr ⟨rfl, cuts.denotes⟩⟩

theorem FieldPath.ofText_grammar_items :
    Denotes true "items[].`a.b`.0".toList
        [.key "items", .each, .key "a.b", .key "0"] ∧
      ∃ segments, Token.Cuts true "items[].`a.b`.0".toList segments ∧
        ofText "items[].`a.b`.0" = .ok ⟨"items[].`a.b`.0", segments⟩ := by
  have grammar := ofText_grammar "items[].`a.b`.0"
  have parsed : ofText "items[].`a.b`.0" =
      .ok ⟨"items[].`a.b`.0", [.key "items", .each, .key "a.b", .key "0"]⟩ := by
    have read : ofText? "items[].`a.b`.0" =
        some ⟨"items[].`a.b`.0", [.key "items", .each, .key "a.b", .key "0"]⟩ := by decide +kernel
    rw [ofText, read]
  refine ⟨((grammar.1 _).mp parsed).2, ?_⟩
  have lexed : Lexeme.ofText "items[].`a.b`.0" =
      [⟨0, 15, .path "items[].`a.b`.0", []⟩] := by decide +kernel
  obtain ⟨segments, cuts, -, read⟩ := grammar.2 _ (lexed ▸ List.mem_singleton_self _) _ rfl
  exact ⟨segments, cuts, read⟩

end RecordQuery
