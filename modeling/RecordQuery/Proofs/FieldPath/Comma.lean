import RecordQuery.Draft
import RecordQuery.Proofs.Text.Blank
import RecordQuery.Proofs.Token.Trim

namespace RecordQuery

open Token (IsMark IsPath IsQuotedName Steps inName)

/-- The components of a path in front of a name between backticks. -/
inductive FieldPath.Components : List Char → Prop
  | nil : Components []
  | quoted {name mark rest : List Char} : IsQuotedName name → IsMark true mark → Components rest →
      Components ('\x60' :: (name ++ '\x60' :: (mark ++ '.' :: rest)))
  | bare {c : Char} {name mark rest : List Char} : inName c = true →
      (∀ d ∈ name, inName d = true) → IsMark true mark → Components rest →
      Components (c :: (name ++ (mark ++ '.' :: rest)))

namespace FieldPath

variable {cs after mark : List Char}

theorem readName_unclosed {inside : List Char} (quoted : IsQuotedName inside) :
    readName ('\x60' :: inside) = none := by
  have all : (inside ++ []).dropWhile (fun d => !isBacktick d) = [].dropWhile _ :=
    List.dropWhile_append_of_pos fun c member => by simp [quoted c member]
  have tick : isBacktick '\x60' = true := rfl
  rw [List.append_nil] at all
  rw [readName, if_pos tick, all]
  rfl

theorem readName_quoted {name : List Char} (quoted : IsQuotedName name) (after : List Char) :
    readName ('\x60' :: (name ++ '\x60' :: after)) = some (some (String.ofList name), after) := by
  have inside : ∀ c ∈ name, (!isBacktick c) = true := fun c member => by simp [quoted c member]
  have taken : (name ++ '\x60' :: after).takeWhile (fun d => !isBacktick d) = name := by
    rw [List.takeWhile_append_of_pos inside, List.takeWhile_cons_of_neg (by decide),
      List.append_nil]
  have dropped :
      (name ++ '\x60' :: after).dropWhile (fun d => !isBacktick d) = '\x60' :: after := by
    rw [List.dropWhile_append_of_pos inside, List.dropWhile_cons_of_neg (by decide)]
  have tick : isBacktick '\x60' = true := rfl
  rw [readName, if_pos tick, taken, dropped]

/-- A bare name reaches to the next character that ends one. -/
theorem readName_bare {c : Char} {name : List Char} (tick : isBacktick c = false)
    (bare : ∀ d ∈ c :: name, endsName d = false) (ends : ∀ d ∈ after.head?, endsName d = true) :
    readName (c :: (name ++ after)) = some (some (String.ofList (c :: name)), after) := by
  have inside : ∀ d ∈ c :: name, (!endsName d) = true := fun d member => by simp [bare d member]
  have taken : (c :: (name ++ after)).takeWhile (fun d => !endsName d) = c :: name := by
    rw [← List.cons_append, List.takeWhile_append_of_pos inside]
    cases after with
    | nil => rw [List.takeWhile_nil, List.append_nil]
    | cons d rest => rw [List.takeWhile_cons_of_neg (by simp [ends d rfl]), List.append_nil]
  have dropped : (c :: (name ++ after)).dropWhile (fun d => !endsName d) = after := by
    rw [← List.cons_append, List.dropWhile_append_of_pos inside]
    cases after with
    | nil => rfl
    | cons d rest => rw [List.dropWhile_cons_of_neg (by simp [ends d rfl])]
  rw [readName]
  simp only [tick, bare c (List.mem_cons_self ..), Bool.false_eq_true, if_false, taken, dropped]

theorem endsName_of_inName {c : Char} (inside : inName c = true) :
    isBacktick c = false ∧ endsName c = false := by
  have other {d : Char} (no : inName d = false) : c ≠ d := Token.ne_of_holds inside no
  exact ⟨beq_false_of_ne (other rfl),
    by simp [endsName, other (d := '.') rfl, other (d := '[') rfl]⟩

/-- A path is refused when its later components are. -/
theorem readSegments_none {t : String} (isMark : IsMark true mark)
    (named : readName cs = some (some t, mark ++ '.' :: after))
    (refused : readSegments false after = none) (first : Bool) : readSegments first cs = none := by
  rcases isMark with rfl | ⟨-, rfl⟩
  · unfold readSegments
    split
    all_goals
      rename_i found
      have same := named.symm.trans found
      cases same
    · rw [refused]
      rfl
    · rfl
  · unfold readSegments
    split
    all_goals
      rename_i found
      have same := named.symm.trans found
      cases same
    · rw [refused]
      cases first <;> rfl
    · rfl

/-- There is no path that ends inside of backticks. -/
theorem readSegments_unclosed {front inside : List Char} (components : Components front)
    (quoted : IsQuotedName inside) (first : Bool) :
    readSegments first (front ++ '\x60' :: inside) = none := by
  induction components generalizing first with
  | nil =>
    unfold readSegments
    split
    · rfl
    all_goals
      rename_i found
      have same := (readName_unclosed quoted).symm.trans found
      cases same
  | @quoted name mark rest quotedName isMark _ ih =>
    refine readSegments_none (t := String.ofList name) isMark ?_ (ih false) first
    rw [List.cons_append, List.append_assoc, List.cons_append, List.append_assoc,
      readName_quoted quotedName]
    rfl
  | @bare c name mark rest letter all isMark _ ih =>
    refine readSegments_none (t := String.ofList (c :: name)) isMark ?_ (ih false) first
    have bare : ∀ d ∈ c :: name, endsName d = false :=
      List.forall_mem_cons.mpr ⟨(endsName_of_inName letter).2,
        fun d member => (endsName_of_inName (all d member)).2⟩
    rw [List.cons_append, List.append_assoc, List.append_assoc,
      readName_bare (endsName_of_inName letter).1 bare]
    · rfl
    · intro d head
      rcases isMark with rfl | ⟨-, rfl⟩ <;> cases head <;> rfl

end FieldPath

namespace Token

open FieldPath (Components)

theorem IsPath.steps {cs : List Char} (isPath : IsPath cs) : Steps true ('.' :: cs) := by
  cases isPath with
  | bare starts all isMark isSteps => exact .bare (inName_of_startsName starts) all isMark isSteps
  | quoted quoted isMark isSteps => exact .quoted quoted isMark isSteps

theorem IsMark.comma {mark : List Char} (isMark : IsMark true mark) : ',' ∉ mark := by
  rcases isMark with rfl | ⟨-, rfl⟩ <;> decide

theorem comma_of_inName {name : List Char} (all : ∀ d ∈ name, inName d = true) : ',' ∉ name :=
  fun member => Bool.false_ne_true (all ',' member)

/-- A comma in the steps of a path stands between backticks. -/
theorem Steps.exists_comma {cs : List Char} (steps : Steps true cs) (member : ',' ∈ cs) :
    ∃ front inside after, cs = '.' :: (front ++ '\x60' :: (inside ++ ',' :: after)) ∧
      Components front ∧ IsQuotedName inside ∧ ',' ∉ front ∧ ',' ∉ inside := by
  induction steps with
  | done => cases member
  | @quoted name mark more quoted isMark steps ih =>
    by_cases within : ',' ∈ name
    · obtain ⟨inside, after, rfl, absent⟩ := List.eq_append_cons_of_mem within
      exact ⟨[], inside, after ++ '\x60' :: (mark ++ more), by simp, .nil,
        fun c among => quoted c (List.mem_append_left _ among), List.not_mem_nil, absent⟩
    · have later : ',' ∈ more := by simpa [within, isMark.comma] using member
      obtain ⟨front, inside, after, rfl, components, closed, first, second⟩ := ih later
      refine ⟨'\x60' :: (name ++ '\x60' :: (mark ++ '.' :: front)), inside, after, by simp,
        .quoted quoted isMark components, closed, ?_, second⟩
      simp [within, isMark.comma, first]
  | @bare c name mark more letter all isMark steps ih =>
    have other : ',' ≠ c := (ne_of_holds letter rfl).symm
    have later : ',' ∈ more := by
      simpa [other, comma_of_inName all, isMark.comma] using member
    obtain ⟨front, inside, after, rfl, components, closed, first, second⟩ := ih later
    refine ⟨c :: (name ++ (mark ++ '.' :: front)), inside, after, by simp,
      .bare letter all isMark components, closed, ?_, second⟩
    simp [other, comma_of_inName all, isMark.comma, first]

end Token

theorem FieldPath.Components.visible {front : List Char} (components : Components front)
    (inside : List Char) : ∀ c ∈ (front ++ '\x60' :: inside).head?, Text.isBlank c = false := by
  intro c head
  cases components with
  | nil => cases head; rfl
  | quoted => cases head; rfl
  | bare letter =>
    cases head
    exact Token.isBlank_of_inName letter

/-- A star is no path. -/
theorem Token.IsPath.ne_star {text : String} (isPath : IsPath text.toList) : text ≠ "*" := by
  rintro rfl
  generalize same : "*".toList = cs at isPath
  cases isPath with
  | bare starts =>
    obtain ⟨rfl, -⟩ := List.cons.inj (same : ['*'] = _)
    cases starts
  | quoted => cases (List.cons.inj (same : ['*'] = _)).1

namespace Draft

open FieldPath (Components)

variable {text : String}

/-- The text of a path without a comma is a single part. -/
theorem commaParts_of_isPath (isPath : IsPath text.toList) (absent : ',' ∉ text.toList) :
    commaParts text = [text] := by
  have nonempty : text.toList.isEmpty = false := by
    obtain ⟨c, rest, same, -⟩ := isPath.exists_cons
    rw [same]
    rfl
  rw [commaParts, Text.splitChars_of_absent absent, List.map_singleton, isPath.trimChars,
    List.filterMap_cons_some (b := text), List.filterMap_nil]
  rw [if_neg (by simp [nonempty]), String.ofList_toList]

/-- The text of a path with a comma falls apart, and the first part of it is no path. -/
theorem exists_part (isPath : IsPath text.toList) (comma : ',' ∈ text.toList) :
    ∃ part rest fault, FieldPath.forQuery part = .error fault ∧ part ≠ "*" ∧
      commaParts text = part :: rest := by
  obtain ⟨front, inside, after, same, components, closed, first, second⟩ :=
    isPath.steps.exists_comma (List.mem_cons_of_mem _ comma)
  have split : text.toList = (front ++ '\x60' :: inside) ++ ',' :: after := by
    rw [(List.cons.inj same).2]
    simp
  have absent : ',' ∉ front ++ '\x60' :: inside := by simp [first, second]
  let part := front ++ '\x60' :: Text.dropTrailingBlanks inside
  have trimmed : Text.trimChars (front ++ '\x60' :: inside) = part := by
    rw [Text.trimChars, Text.dropBlanks_of_visible (components.visible inside),
      Text.dropTrailingBlanks_append rfl]
  have quoted : IsQuotedName (Text.dropTrailingBlanks inside) :=
    fun c member => closed c (Text.mem_of_mem_dropTrailingBlanks member)
  have nonempty : part.isEmpty = false := by
    cases front <;> rfl
  have parts := congrArg (List.map Text.trimChars) (Text.splitChars_of_first absent after)
  rw [← split, List.map_cons, trimmed] at parts
  have cut : ∃ rest, commaParts text = String.ofList part :: rest := by
    rw [commaParts, parts]
    exact ⟨_, List.filterMap_cons_some (b := String.ofList part) (by rw [nonempty]; rfl)⟩
  obtain ⟨rest, cut⟩ := cut
  refine ⟨String.ofList part, rest, .invalidPath (String.ofList part), ?_, ?_, cut⟩
  · rw [FieldPath.forQuery, FieldPath.ofText?, String.toList_ofList,
      FieldPath.readSegments_unclosed components quoted]
    rfl
  · intro star
    have chars : part = ['*'] := by rw [← String.toList_ofList (l := part), star]; rfl
    have tick : '\x60' ∈ part := List.mem_append_right _ (List.mem_cons_self ..)
    rw [chars] at tick
    revert tick
    decide

end Draft

end RecordQuery
