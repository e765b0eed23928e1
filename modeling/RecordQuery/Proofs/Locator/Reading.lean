import Mathlib.Data.List.TakeWhile
import RecordQuery.Locator
import RecordQuery.Proofs.Text.Blank

namespace RecordQuery

namespace Locator

open Text (EndsVisibly)

theorem someText_eq_some {cs : List Char} {s : String} :
    someText cs = some s ↔ s.toList = Text.trimChars cs ∧ s.toList ≠ [] := by
  simp only [someText]
  split
  · rename_i empty
    rw [List.isEmpty_iff.mp empty]
    exact iff_of_false nofun fun both => both.2 both.1
  · rename_i nonempty
    rw [Option.some_inj]
    constructor
    · rintro rfl
      rw [String.toList_ofList]
      exact ⟨rfl, mt List.isEmpty_iff.mpr nonempty⟩
    · rintro ⟨same, -⟩
      rw [← same, String.ofList_toList]

/-- A text without blanks at its ends that is not empty. -/
def IsTidy (s : String) : Prop :=
  someText s.toList = some s

theorem isTidy_of_someText {cs : List Char} {s : String} (found : someText cs = some s) :
    IsTidy s := by
  obtain ⟨same, nonempty⟩ := someText_eq_some.mp found
  refine someText_eq_some.mpr ⟨?_, nonempty⟩
  rw [same, Text.trimChars_trimChars]

theorem IsTidy.endsVisibly {s : String} (tidy : IsTidy s) : EndsVisibly s.toList := by
  rw [(someText_eq_some.mp tidy).1]
  exact Text.endsVisibly_trimChars _

section

variable {opening closing : Char} {inside after cs : List Char}

theorem readBetween_closed (absent : closing ∉ inside) :
    readBetween opening closing (opening :: (inside ++ closing :: after)) =
      (someText inside, after) := by
  have all : ∀ c ∈ inside, (c != closing) = true := fun c member =>
    bne_iff_ne.mpr fun same => absent (same ▸ member)
  have stop : (closing != closing) = false := bne_self_eq_false closing
  rw [readBetween, if_pos rfl, List.dropWhile_append_of_pos all, List.dropWhile_cons, stop,
    List.takeWhile_append_of_pos all, List.takeWhile_cons, stop]
  simp

theorem readBetween_open (unclosed : cs.head? = some opening → closing ∉ cs.tail) :
    readBetween opening closing cs = (none, cs) := by
  cases cs with
  | nil => rfl
  | cons c rest =>
    rw [readBetween]
    split
    · rename_i first
      have all : ∀ d ∈ rest, (d != closing) = true := fun d member =>
        bne_iff_ne.mpr fun same => unclosed (congrArg some first) (same ▸ member)
      rw [List.dropWhile_eq_nil_iff.mpr all]
    · rfl

/-- Something is read when the text begins with the opening character and has the closing one
behind it. -/
theorem readBetween_cases (opening closing : Char) (cs : List Char) :
    (∃ inside after, cs = opening :: (inside ++ closing :: after) ∧ closing ∉ inside ∧
        readBetween opening closing cs = (someText inside, after)) ∨
      (cs.head? = some opening → closing ∉ cs.tail) ∧
        readBetween opening closing cs = (none, cs) := by
  by_cases closed : cs.head? = some opening ∧ closing ∈ cs.tail
  · obtain ⟨first, member⟩ := closed
    cases cs with
    | nil => cases first
    | cons c rest =>
      cases first
      obtain ⟨inside, after, rfl, absent⟩ := List.eq_append_cons_of_mem member
      exact .inl ⟨inside, after, rfl, absent, readBetween_closed absent⟩
  · have unclosed := fun first member => closed ⟨first, member⟩
    exact .inr ⟨unclosed, readBetween_open unclosed⟩

theorem isTidy_readBetween {s : String} (found : (readBetween opening closing cs).1 = some s) :
    IsTidy s ∧ closing ∉ s.toList := by
  rcases readBetween_cases opening closing cs with ⟨inside, after, -, absent, read⟩ | ⟨-, read⟩
  · rw [read] at found
    refine ⟨isTidy_of_someText found, fun member => absent ?_⟩
    rw [(someText_eq_some.mp found).1] at member
    exact Text.mem_of_mem_trimChars member
  · rw [read] at found
    cases found

/-- Less of a text is left when something is read. -/
theorem readBetween_of_length_le (opening closing : Char) (cs : List Char)
    (full : cs.length ≤ (readBetween opening closing cs).2.length) :
    (cs.head? = some opening → closing ∉ cs.tail) ∧ (readBetween opening closing cs).2 = cs := by
  rcases readBetween_cases opening closing cs with ⟨inside, after, rfl, -, read⟩ | ⟨unclosed, read⟩
  · rw [read] at full
    simp only [List.length_cons, List.length_append] at full
    omega
  · exact ⟨unclosed, by rw [read]⟩

theorem length_readBetween_le (opening closing : Char) (cs : List Char) :
    (readBetween opening closing cs).2.length ≤ cs.length := by
  rcases readBetween_cases opening closing cs with ⟨inside, after, rfl, -, read⟩ | ⟨-, read⟩
  · rw [read]
    simp only [List.length_cons, List.length_append]
    omega
  · exact (congrArg (fun found => found.2.length) read).le

end

/-- A text without a point at its front. -/
def behindPoint (cs : List Char) : List Char :=
  match cs with
  | '.' :: after => after
  | _ => cs

theorem behindPoint_of_head {cs : List Char} (other : cs.head? ≠ some '.') :
    behindPoint cs = cs := by
  unfold behindPoint
  split
  · exact absurd rfl other
  · rfl

theorem length_behindPoint_le (cs : List Char) : (behindPoint cs).length ≤ cs.length := by
  unfold behindPoint
  split
  · exact Nat.le_succ _
  · exact Nat.le_refl _

theorem head_of_length_le {cs : List Char} (full : cs.length ≤ (behindPoint cs).length) :
    cs.head? ≠ some '.' := by
  unfold behindPoint at full
  split at full
  · rw [List.length_cons] at full
    omega
  · rename_i other
    intro first
    cases cs with
    | nil => cases first
    | cons c rest =>
      cases first
      exact other rest rfl

/-- A text that is not the star is read from the front on. -/
theorem ofText_ordinary {text : String} {cs : List Char} (trimmed : Text.trimChars text.toList = cs)
    (nonempty : cs ≠ []) (ordinary : cs ≠ ['*']) :
    ofText text =
      let brackets := readBetween '[' ']' cs
      let parens := readBetween '(' ')' brackets.2
      ⟨brackets.1, parens.1, someText (behindPoint parens.2)⟩ := by
  rw [ofText, trimmed]
  exact (if_neg (not_or.mpr ⟨nonempty, ordinary⟩)).trans rfl

/-- A locator whose parts are tidy and do not close the brackets or parentheses around them. -/
structure IsRead (l : Locator) : Prop where
  format : ∀ s ∈ l.format, IsTidy s ∧ ']' ∉ s.toList
  path : ∀ s ∈ l.path, IsTidy s ∧ ')' ∉ s.toList
  query : ∀ s ∈ l.query, IsTidy s

theorem isRead_ofText (text : String) : (ofText text).IsRead := by
  by_cases whole : Text.trimChars text.toList = [] ∨ Text.trimChars text.toList = ['*']
  · have same : ofText text = all := if_pos whole
    rw [same]
    exact ⟨nofun, nofun, nofun⟩
  · obtain ⟨nonempty, ordinary⟩ := not_or.mp whole
    rw [ofText_ordinary rfl nonempty ordinary]
    exact ⟨fun _ => isTidy_readBetween, fun _ => isTidy_readBetween, fun _ => isTidy_of_someText⟩

/-- The notation of a path in parentheses, if there is one. -/
def parenChars (path : Option String) : List Char :=
  path.elim [] fun s => '(' :: (s.toList ++ [')'])

/-- The notation of a path to follow behind brackets, if there is one. -/
def stepChars (query : Option String) : List Char :=
  query.elim [] fun s => '.' :: s.toList

section

variable {format path query : Option String}

theorem displayChars_bracketed {l : Locator}
    (bracketed : (l.format.isSome || l.path.isSome) = true) :
    l.displayChars =
      '[' :: ((l.format.getD "").toList ++ ']' :: (parenChars l.path ++ stepChars l.query)) := by
  have notAll : l.isAll = false := by
    rw [isAll, ← Option.not_isSome, ← Option.not_isSome, ← Bool.not_or, bracketed]
    rfl
  simp only [displayChars, notAll, bracketed]
  cases l.path <;> cases l.query <;> simp [parenChars, stepChars]

theorem readBetween_brackets (read : ∀ s ∈ format, IsTidy s ∧ ']' ∉ s.toList) (after : List Char) :
    readBetween '[' ']' ('[' :: ((format.getD "").toList ++ ']' :: after)) = (format, after) := by
  cases format with
  | none => rfl
  | some s =>
    obtain ⟨tidy, absent⟩ := read s rfl
    exact (readBetween_closed absent).trans (congrArg (·, after) tidy)

theorem readBetween_parens (read : ∀ s ∈ path, IsTidy s ∧ ')' ∉ s.toList)
    (query : Option String) :
    readBetween '(' ')' (parenChars path ++ stepChars query) = (path, stepChars query) := by
  cases path with
  | none =>
    refine readBetween_open fun first => ?_
    cases query <;> cases first
  | some s =>
    obtain ⟨tidy, absent⟩ := read s rfl
    have split : parenChars (some s) ++ stepChars query =
        '(' :: (s.toList ++ ')' :: stepChars query) := by simp [parenChars]
    rw [split]
    exact (readBetween_closed absent).trans (congrArg (·, stepChars query) tidy)

theorem someText_stepChars (tidy : ∀ s ∈ query, IsTidy s) :
    someText (behindPoint (stepChars query)) = query := by
  cases query with
  | none => rfl
  | some s => exact tidy s rfl

theorem endsVisibly_parts (path : Option String) (tidy : ∀ s ∈ query, IsTidy s)
    (before : List Char) :
    EndsVisibly (before ++ ']' :: (parenChars path ++ stepChars query)) := by
  have bracket : EndsVisibly (before ++ [']']) := .concat before rfl
  have parens : EndsVisibly (parenChars path) := by
    cases path with
    | none => exact nofun
    | some s => exact .concat ('(' :: s.toList) rfl
  have steps : EndsVisibly (stepChars query) := by
    cases query with
    | none => exact nofun
    | some s =>
      have point : EndsVisibly ['.'] := .concat [] rfl
      exact point.append (tidy s rfl).endsVisibly
  have split := bracket.append (parens.append steps)
  rwa [List.append_assoc, List.singleton_append] at split

end

/-- What is written with brackets is read back. -/
theorem ofText_display_bracketed {l : Locator} (read : l.IsRead)
    (bracketed : (l.format.isSome || l.path.isSome) = true) : ofText l.display = l := by
  have ends := endsVisibly_parts l.path read.query ('[' :: (l.format.getD "").toList)
  have trimmed := Text.trimChars_of_ends (fun c first => by cases first; rfl) ends
  rw [List.cons_append] at trimmed
  have star : '[' ≠ '*' := by decide
  rw [display, displayChars_bracketed bracketed,
    ofText_ordinary ((congrArg Text.trimChars String.toList_ofList).trans trimmed)
      (List.cons_ne_nil _ _) fun same => star (List.cons.inj same).1]
  simp only [readBetween_brackets read.format, readBetween_parens read.path,
    someText_stepChars read.query]

/-- A path to follow that is read back when nothing stands in front of it: it is not the star, and
it begins neither with a point nor with brackets or parentheses that are closed. -/
structure StandsAlone (query : List Char) : Prop where
  star : query ≠ ['*']
  point : query.head? ≠ some '.'
  brackets : query.head? = some '[' → ']' ∉ query.tail
  parens : query.head? = some '(' → ')' ∉ query.tail

theorem ofText_alone_iff {s : String} (tidy : IsTidy s) :
    ofText s = ⟨none, none, some s⟩ ↔ StandsAlone s.toList := by
  obtain ⟨trimmed, nonempty⟩ := someText_eq_some.mp tidy
  constructor
  · intro same
    have ordinary : s.toList ≠ ['*'] := by
      intro star
      have whole : ofText s = all := if_pos (.inr (trimmed.symm.trans star))
      rw [whole] at same
      cases same
    rw [ofText_ordinary trimmed.symm nonempty ordinary] at same
    -- Whatever is taken off at the front makes the rest shorter than the path that is read.
    have kept := congrArg List.length (someText_eq_some.mp (congrArg query same)).1
    have first := length_readBetween_le '[' ']' s.toList
    have second := length_readBetween_le '(' ')' (readBetween '[' ']' s.toList).2
    have third := length_behindPoint_le (readBetween '(' ')' (readBetween '[' ']' s.toList).2).2
    have fourth := Text.length_trimChars_le
      (behindPoint (readBetween '(' ')' (readBetween '[' ']' s.toList).2).2)
    obtain ⟨brackets, front⟩ := readBetween_of_length_le '[' ']' s.toList (by omega)
    rw [front] at kept second third fourth
    obtain ⟨parens, behind⟩ := readBetween_of_length_le '(' ')' s.toList (by omega)
    rw [behind] at kept third fourth
    exact ⟨ordinary, head_of_length_le (by omega), brackets, parens⟩
  · intro alone
    rw [ofText_ordinary trimmed.symm nonempty alone.star]
    simp only [readBetween_open alone.brackets, readBetween_open alone.parens,
      behindPoint_of_head alone.point]
    exact congrArg _ tidy

/-- A locator is read back from its notation, unless it has no more than a path to follow that does
not stand alone. -/
theorem ofText_display_iff (text : String) :
    ofText (ofText text).display = ofText text ↔
      ((ofText text).format = none → (ofText text).path = none →
        ∀ s ∈ (ofText text).query, StandsAlone s.toList) := by
  have read := isRead_ofText text
  generalize ofText text = l at read
  by_cases bracketed : (l.format.isSome || l.path.isSome) = true
  · refine iff_of_true (ofText_display_bracketed read bracketed) fun format path => ?_
    rw [format, path] at bracketed
    cases bracketed
  · obtain ⟨format, path, query⟩ := l
    cases format <;> cases path <;> first | exact absurd rfl bracketed | skip
    cases query with
    | none => exact iff_of_true rfl nofun
    | some s =>
      have written : display ⟨none, none, some s⟩ = s := String.ofList_toList
      rw [written, ofText_alone_iff (read.query s rfl)]
      exact ⟨fun alone _ _ _ same => Option.some.inj same ▸ alone, fun each => each rfl rfl s rfl⟩

/-- A path of one star behind a point is written without the point, and then it is everything. -/
theorem not_ofText_display_star : ¬ ∀ text : String,
    ofText (ofText text).display = ofText text := by
  intro always
  have star := always ".*"
  revert star
  decide

end Locator

end RecordQuery
