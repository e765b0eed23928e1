import RecordQuery.Regex

namespace RecordQuery

/-- A pattern of texts, as the regular expression that it is made into. -/
structure LikePattern where
  regex : Regex

namespace LikePattern

/-- The notation of what a character of a pattern goes with: a percent sign with any run of
characters, an underscore with any one character, and any other character with itself alone. -/
def partChars (c : Char) : List Char :=
  match c with
  | '%' => ['.', '*']
  | '_' => ['.']
  | c => Regex.escapeChar c

/-- The notation of the expression of a pattern. It goes with line feeds too, and with whole texts
only. -/
def regexChars (pattern : List Char) : List Char :=
  "(?s)^".toList ++ pattern.flatMap partChars ++ ['$']

/-- What a character of a pattern goes with. -/
def part (c : Char) : Regex :=
  match c with
  | '%' => .star (.any true)
  | '_' => .any true
  | c => .char c

/-- The expression of a pattern up to the end of the text. -/
def toStop (pattern : List Char) : Regex :=
  (pattern.map part).foldr .concat (.concat .stop .empty)

/-- The expression of a pattern. -/
def regexOf (pattern : List Char) : Regex :=
  .concat .start (toStop pattern)

theorem readParts_escapeChar (lineBreaks : Bool) (parts : List Regex) (c : Char)
    (behind : List Char) : Regex.readParts lineBreaks parts (Regex.escapeChar c ++ behind) =
      Regex.readParts lineBreaks (.char c :: parts) behind := by
  rw [Regex.escapeChar]
  split
  · rename_i special
    exact if_pos special
  · rename_i plain
    have added : Regex.addPart? lineBreaks c parts = some (.char c :: parts) := if_neg plain
    rw [List.singleton_append, Regex.readParts, added]
    rintro _ _ rfl
    exact absurd rfl plain

theorem readParts_partChars (parts : List Regex) (c : Char) (behind : List Char) :
    Regex.readParts true parts (partChars c ++ behind) =
      Regex.readParts true (part c :: parts) behind := by
  unfold partChars part
  split
  · rfl
  · rfl
  · exact readParts_escapeChar true parts c behind

theorem readParts_pattern (parts : List Regex) (pattern behind : List Char) :
    Regex.readParts true parts (pattern.flatMap partChars ++ behind) =
      Regex.readParts true ((pattern.map part).reverse ++ parts) behind := by
  induction pattern generalizing parts with
  | nil => rfl
  | cons c pattern ih =>
    rw [List.flatMap_cons, List.append_assoc, readParts_partChars, ih, List.map_cons,
      List.reverse_cons, List.append_assoc]
    rfl

/-- The notation of the expression of a pattern is always read, whatever is in the pattern. -/
theorem ofChars?_regexChars (pattern : List Char) :
    Regex.ofChars? (regexChars pattern) = some (regexOf pattern) := by
  have flagged : Regex.ofChars? (regexChars pattern) =
      Regex.readParts true [.start] (pattern.flatMap partChars ++ ['$']) := rfl
  rw [flagged, readParts_pattern]
  change some (Regex.ofReversed (.stop :: ((pattern.map part).reverse ++ [.start]))) = _
  rw [Regex.ofReversed, List.foldl_cons, List.foldl_append, List.foldl_reverse]
  rfl

/-- The expression of a pattern is read from its notation. -/
def ofText (pattern : String) : LikePattern :=
  ⟨(Regex.ofChars? (regexChars pattern.toList)).get
    (Option.isSome_of_eq_some (ofChars?_regexChars pattern.toList))⟩

/-- Whether a pattern goes with the whole of a text. -/
def isMatch (p : LikePattern) (text : String) : Bool :=
  p.regex.isMatch text.toList

theorem regex_ofText (pattern : String) : (ofText pattern).regex = regexOf pattern.toList := by
  simp only [ofText, ofChars?_regexChars, Option.get_some]

end LikePattern

end RecordQuery
