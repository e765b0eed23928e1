import RecordQuery.Text.Blank
import RecordQuery.Text.Pieces

namespace RecordQuery.Text

/-- Whether no blank stands at the end. -/
def EndsVisibly (cs : List Char) : Prop :=
  ∀ c ∈ cs.getLast?, isBlank c = false

section

variable {cs ds : List Char}

theorem EndsVisibly.of_all (all : ∀ c ∈ cs, isBlank c = false) : EndsVisibly cs :=
  fun c last => all c (List.mem_of_getLast? last)

theorem EndsVisibly.concat (cs : List Char) {c : Char} (visible : isBlank c = false) :
    EndsVisibly (cs ++ [c]) := by
  intro d last
  rw [List.getLast?_concat] at last
  cases last
  exact visible

theorem EndsVisibly.append (first : EndsVisibly cs) (second : EndsVisibly ds) :
    EndsVisibly (cs ++ ds) := by
  intro c last
  cases ds with
  | nil =>
    rw [List.append_nil] at last
    exact first c last
  | cons d rest =>
    have nonempty := List.cons_ne_nil d rest
    rw [List.getLast?_append, List.getLast?_eq_some_getLast nonempty, Option.some_or,
      ← List.getLast?_eq_some_getLast nonempty] at last
    exact second c last

theorem dropBlanks_of_visible (visible : ∀ c ∈ cs.head?, isBlank c = false) :
    dropBlanks cs = cs := by
  cases cs with
  | nil => rfl
  | cons c rest => exact List.dropWhile_cons_of_neg (by simp [visible c rfl])

theorem trimChars_of_ends (visible : ∀ c ∈ cs.head?, isBlank c = false)
    (ends : EndsVisibly cs) : trimChars cs = cs := by
  rw [trimChars, dropBlanks_of_visible visible, dropTrailingBlanks, dropBlanks_of_visible,
    List.reverse_reverse]
  rwa [List.head?_reverse]

theorem trimChars_blank (cs : List Char) : trimChars (' ' :: cs) = trimChars cs := by
  have dropped : dropBlanks (' ' :: cs) = dropBlanks cs := List.dropWhile_cons_of_pos rfl
  rw [trimChars, dropped]
  rfl

theorem mem_of_mem_dropTrailingBlanks {c : Char} (member : c ∈ dropTrailingBlanks cs) :
    c ∈ cs :=
  List.mem_reverse.mp ((List.dropWhile_sublist _).mem (List.mem_reverse.mp member))

theorem mem_of_mem_trimChars {c : Char} (member : c ∈ trimChars cs) : c ∈ cs :=
  (List.dropWhile_sublist _).mem (mem_of_mem_dropTrailingBlanks member)

/-- No blanks are dropped in front of what is visible. -/
theorem dropTrailingBlanks_append {c : Char} (visible : isBlank c = false) :
    dropTrailingBlanks (cs ++ c :: ds) = cs ++ c :: dropTrailingBlanks ds := by
  have stop : dropBlanks (c :: cs.reverse) = c :: cs.reverse :=
    List.dropWhile_cons_of_neg (by simp [visible])
  have reversed : (cs ++ c :: ds).reverse = ds.reverse ++ c :: cs.reverse := by simp
  rw [dropTrailingBlanks, dropTrailingBlanks, reversed, dropBlanks, dropBlanks,
    List.dropWhile_append]
  split
  · rename_i none
    rw [List.isEmpty_iff.mp none, ← dropBlanks, stop]
    simp
  · simp

theorem endsVisibly_trimChars (cs : List Char) : EndsVisibly (trimChars cs) := by
  intro c last
  rw [trimChars, dropTrailingBlanks, List.getLast?_reverse] at last
  have stopped := List.head?_dropWhile_not isBlank (dropBlanks cs).reverse
  rw [← dropBlanks, Option.mem_def.mp last] at stopped
  exact stopped

theorem trimChars_trimChars (cs : List Char) : trimChars (trimChars cs) = trimChars cs := by
  refine trimChars_of_ends (fun c first => ?_) (endsVisibly_trimChars cs)
  have stopped := List.head?_dropWhile_not isBlank cs
  rw [← dropBlanks] at stopped
  rw [trimChars] at first
  cases begins : dropBlanks cs with
  | nil =>
    rw [begins] at first
    cases first
  | cons d rest =>
    rw [begins, List.head?_cons] at stopped
    have kept : dropTrailingBlanks (d :: rest) = d :: dropTrailingBlanks rest :=
      @dropTrailingBlanks_append [] rest d stopped
    rw [begins, kept] at first
    cases first
    exact stopped

/-- Nothing but blanks is left out at the two ends. -/
theorem exists_trimChars (cs : List Char) : ∃ front back, cs = front ++ (trimChars cs ++ back) ∧
    (∀ c ∈ front, isBlank c = true) ∧ ∀ c ∈ back, isBlank c = true := by
  have blanks (ds : List Char) : ∀ c ∈ ds.takeWhile isBlank, isBlank c = true :=
    List.all_eq_true.mp List.all_takeWhile
  refine ⟨cs.takeWhile isBlank, ((dropBlanks cs).reverse.takeWhile isBlank).reverse, ?_, blanks cs,
    fun c member => blanks _ c (List.mem_reverse.mp member)⟩
  rw [trimChars, dropTrailingBlanks, dropBlanks.eq_def (dropBlanks cs).reverse,
    ← List.reverse_append, List.takeWhile_append_dropWhile, List.reverse_reverse]
  exact List.takeWhile_append_dropWhile.symm

/-- A character that is not blank stays. -/
theorem trimChars_ne_nil {c : Char} (member : c ∈ cs) (visible : isBlank c = false) :
    trimChars cs ≠ [] := by
  have kept {ds : List Char} (member : c ∈ ds) : c ∈ dropBlanks ds := by
    rw [← List.takeWhile_append_dropWhile (p := isBlank) (l := ds)] at member
    rcases List.mem_append.mp member with blank | after
    · have blanks := List.all_eq_true.mp (List.all_takeWhile (p := isBlank) (l := ds)) c blank
      rw [visible] at blanks
      cases blanks
    · exact after
  have both : c ∈ trimChars cs :=
    List.mem_reverse.mpr (kept (List.mem_reverse.mpr (kept member)))
  exact List.ne_nil_of_mem both

theorem splitAtFirst_of_all {p : Char → Bool} (absent : ∀ c ∈ cs, p c = false) :
    splitAtFirst p cs = (cs, none) := by
  have inside : ∀ c ∈ cs, (!p c) = true := fun c member => by simp [absent c member]
  have all : (cs ++ []).dropWhile (fun c => !p c) = [].dropWhile fun c => !p c :=
    List.dropWhile_append_of_pos inside
  rw [List.append_nil] at all
  rw [splitAtFirst, all]
  rfl

theorem splitAtFirst_append {p : Char → Bool} (absent : ∀ c ∈ cs, p c = false) {c : Char}
    (sign : p c = true) (after : List Char) :
    splitAtFirst p (cs ++ c :: after) = (cs, some after) := by
  have inside : ∀ c ∈ cs, (!p c) = true := fun c member => by simp [absent c member]
  have before : (cs ++ c :: after).takeWhile (fun c => !p c) = cs := by
    rw [List.takeWhile_append_of_pos inside, List.takeWhile_cons, sign]
    simp
  have behind : (cs ++ c :: after).dropWhile (fun c => !p c) = c :: after := by
    rw [List.dropWhile_append_of_pos inside, List.dropWhile_cons, sign]
    simp
  rw [splitAtFirst, behind]
  dsimp only
  rw [before]

/-- A text has no character with a property, or it is cut at one. -/
theorem splitAtFirst_cases {p : Char → Bool} {front : List Char}
    {behind : Option (List Char)} (cut : splitAtFirst p cs = (front, behind)) :
    (behind = none ∧ cs = front) ∨
      ∃ c after, behind = some after ∧ p c = true ∧ cs = front ++ c :: after := by
  have split := (List.takeWhile_append_dropWhile (p := fun c => !p c) (l := cs)).symm
  unfold splitAtFirst at cut
  cases found : cs.dropWhile fun c => !p c with
  | nil =>
    rw [found] at cut
    cases cut
    exact .inl ⟨rfl, rfl⟩
  | cons c after =>
    have stopped := List.head?_dropWhile_not (fun c => !p c) cs
    rw [found] at cut split stopped
    cases cut
    exact .inr ⟨c, after, rfl, by simpa using stopped, split⟩

theorem splitChars_of_first {c : Char} (absent : c ∉ cs) (after : List Char) :
    splitChars [c] (cs ++ c :: after) = cs :: splitChars [c] after := by
  have run (piece : List Char) : splitFrom [c] piece 0 (cs ++ c :: after) =
      (piece.reverse ++ cs) :: splitFrom [c] [] 0 after := by
    induction cs generalizing piece with
    | nil =>
      have here : List.isPrefixOf [c] (c :: after) = true := by simp [List.isPrefixOf]
      rw [List.nil_append, splitFrom, here, if_pos rfl, List.append_nil]
      rfl
    | cons d rest ih =>
      rw [List.mem_cons, not_or] at absent
      obtain ⟨other, later⟩ := absent
      have apart : List.isPrefixOf [c] (d :: (rest ++ c :: after)) = false := by
        simp [List.isPrefixOf, other]
      rw [List.cons_append, splitFrom, apart, if_neg Bool.false_ne_true, ih later,
        List.reverse_cons, List.append_assoc, List.singleton_append]
  exact run []

theorem splitChars_of_absent {c : Char} (absent : c ∉ cs) : splitChars [c] cs = [cs] := by
  have run (piece : List Char) : splitFrom [c] piece 0 cs = [piece.reverse ++ cs] := by
    induction cs generalizing piece with
    | nil => rw [splitFrom, List.append_nil]
    | cons d rest ih =>
      rw [List.mem_cons, not_or] at absent
      obtain ⟨other, later⟩ := absent
      have apart : List.isPrefixOf [c] (d :: rest) = false := by simp [List.isPrefixOf, other]
      rw [splitFrom, apart, if_neg Bool.false_ne_true, ih later, List.reverse_cons,
        List.append_assoc, List.singleton_append]
  exact run []

end

end RecordQuery.Text
