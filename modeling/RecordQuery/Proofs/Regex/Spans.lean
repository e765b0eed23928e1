import Mathlib.Data.List.Infix
import Mathlib.Logic.Relation
import RecordQuery.Regex

namespace RecordQuery.Regex

/-- Whether an expression matches what stands between two places of a text. A place is given by all
that stands behind it. -/
def Spans (text : List Char) : Regex → List Char → List Char → Prop
  | .empty, s, t => s = t
  | .start, s, t => s = text ∧ s = t
  | .stop, s, t => s = [] ∧ s = t
  | .any lineBreaks, s, t => ∃ c, s = c :: t ∧ (lineBreaks = true ∨ c ≠ '\n')
  | .char c, s, t => s = c :: t
  | .concat first second, s, t => ∃ u, first.Spans text s u ∧ second.Spans text u t
  | .star inner, s, t => Relation.ReflTransGen (inner.Spans text) s t

/-- Whether an expression matches one character and then goes on with what is left of it behind
that character. -/
def StepsOn (text : List Char) (r : Regex) (s t : List Char) : Prop :=
  ∃ c rest, s = c :: rest ∧ ∃ q ∈ r.behind (s == text) c, q.Spans text rest t

section

variable {text s t : List Char}

theorem stepsOn_any {lineBreaks : Bool} :
    (any lineBreaks).StepsOn text s t ↔ (any lineBreaks).Spans text s t := by
  constructor
  · rintro ⟨c, rest, rfl, q, member, spans⟩
    simp only [behind] at member
    split at member
    · rename_i allowed
      cases List.mem_singleton.mp member
      cases spans
      exact ⟨c, rfl, by simpa using allowed⟩
    · cases member
  · rintro ⟨c, rfl, allowed⟩
    exact ⟨c, t, rfl, .empty, by simp [behind, allowed], rfl⟩

theorem stepsOn_char {d : Char} : (char d).StepsOn text s t ↔ (char d).Spans text s t := by
  constructor
  · rintro ⟨c, rest, rfl, q, member, spans⟩
    simp only [behind] at member
    split at member
    · rename_i same
      cases List.mem_singleton.mp member
      cases spans
      rw [same, Spans]
    · cases member
  · rintro rfl
    exact ⟨d, t, rfl, .empty, by simp [behind], rfl⟩

theorem stepsOn_concat {first second : Regex} : (concat first second).StepsOn text s t ↔
    (∃ u, first.StepsOn text s u ∧ second.Spans text u t) ∨
      first.matchesEmpty (s == text) s.isEmpty = true ∧ second.StepsOn text s t := by
  constructor
  · rintro ⟨c, rest, rfl, q, member, spans⟩
    rcases List.mem_append.mp member with inside | next
    · obtain ⟨left, among, rfl⟩ := List.mem_map.mp inside
      obtain ⟨u, before, after⟩ := spans
      exact .inl ⟨u, ⟨c, rest, rfl, left, among, before⟩, after⟩
    · split at next
      · rename_i passes
        exact .inr ⟨passes, c, rest, rfl, q, next, spans⟩
      · cases next
  · rintro (⟨u, ⟨c, rest, rfl, q, member, before⟩, after⟩ |
      ⟨passes, c, rest, rfl, q, member, spans⟩)
    · refine ⟨c, rest, rfl, .concat q second, ?_, u, before, after⟩
      exact List.mem_append_left _ (List.mem_map_of_mem member)
    · refine ⟨c, rest, rfl, q, List.mem_append_right _ ?_, spans⟩
      rw [List.isEmpty_cons] at passes
      rwa [if_pos passes]

theorem stepsOn_star {inner : Regex} : (star inner).StepsOn text s t ↔
    ∃ u, inner.StepsOn text s u ∧ (star inner).Spans text u t := by
  constructor
  · rintro ⟨c, rest, rfl, q, member, spans⟩
    obtain ⟨left, among, rfl⟩ := List.mem_map.mp member
    obtain ⟨u, before, after⟩ := spans
    exact ⟨u, ⟨c, rest, rfl, left, among, before⟩, after⟩
  · rintro ⟨u, ⟨c, rest, rfl, q, member, before⟩, after⟩
    exact ⟨c, rest, rfl, .concat q (.star inner), List.mem_map_of_mem member, u, before, after⟩

/-- An expression matches nothing at a place, or it steps on from there. -/
theorem spans_iff {r : Regex} : r.Spans text s t ↔
    s = t ∧ r.matchesEmpty (s == text) s.isEmpty = true ∨ r.StepsOn text s t := by
  induction r generalizing s t with
  | empty => simp [Spans, StepsOn, matchesEmpty, behind]
  | start => simp [Spans, StepsOn, matchesEmpty, behind, and_comm]
  | stop => simp [Spans, StepsOn, matchesEmpty, behind, and_comm]
  | any lineBreaks => simp [stepsOn_any, matchesEmpty]
  | char d => simp [stepsOn_char, matchesEmpty]
  | concat first second ihFirst ihSecond =>
    rw [stepsOn_concat]
    constructor
    · rintro ⟨u, before, after⟩
      rcases ihFirst.mp before with ⟨rfl, passes⟩ | steps
      · rcases ihSecond.mp after with ⟨rfl, ends⟩ | steps
        · exact .inl ⟨rfl, Bool.and_eq_true_iff.mpr ⟨passes, ends⟩⟩
        · exact .inr (.inr ⟨passes, steps⟩)
      · exact .inr (.inl ⟨u, steps, after⟩)
    · rintro (⟨rfl, passes⟩ | ⟨u, steps, after⟩ | ⟨passes, steps⟩)
      · obtain ⟨here, ends⟩ := Bool.and_eq_true_iff.mp passes
        exact ⟨s, ihFirst.mpr (.inl ⟨rfl, here⟩), ihSecond.mpr (.inl ⟨rfl, ends⟩)⟩
      · exact ⟨u, ihFirst.mpr (.inr steps), after⟩
      · exact ⟨s, ihFirst.mpr (.inl ⟨rfl, passes⟩), ihSecond.mpr (.inr steps)⟩
  | star inner ih =>
    rw [stepsOn_star]
    constructor
    · intro spans
      induction spans using Relation.ReflTransGen.head_induction_on with
      | refl => exact .inl ⟨rfl, rfl⟩
      | head first rest later =>
        rcases ih.mp first with ⟨rfl, -⟩ | steps
        · exact later
        · exact .inr ⟨_, steps, rest⟩
    · rintro (⟨rfl, -⟩ | ⟨u, steps, rest⟩)
      · exact .refl
      · exact .head (ih.mpr (.inr steps)) rest

/-- Whether an expression matches something that begins at a place of a text. -/
def Begins (text : List Char) (r : Regex) (s : List Char) : Prop :=
  ∃ t, r.Spans text s t

theorem begins_nil {r : Regex} :
    r.Begins text [] ↔ r.matchesEmpty ([] == text) true = true := by
  constructor
  · rintro ⟨t, spans⟩
    rcases spans_iff.mp spans with ⟨-, passes⟩ | ⟨c, rest, longer, -⟩
    · exact passes
    · cases longer
  · exact fun passes => ⟨[], spans_iff.mpr (.inl ⟨rfl, passes⟩)⟩

theorem begins_cons {r : Regex} {c : Char} {rest : List Char} : r.Begins text (c :: rest) ↔
    r.matchesEmpty (c :: rest == text) false = true ∨
      ∃ q ∈ r.behind (c :: rest == text) c, q.Begins text rest := by
  constructor
  · rintro ⟨t, spans⟩
    rcases spans_iff.mp spans with ⟨-, passes⟩ | ⟨_, _, same, q, member, spans⟩
    · exact .inl passes
    · cases same
      exact .inr ⟨q, member, t, spans⟩
  · rintro (passes | ⟨q, member, t, spans⟩)
    · exact ⟨c :: rest, spans_iff.mpr (.inl ⟨rfl, passes⟩)⟩
    · exact ⟨t, spans_iff.mpr (.inr ⟨c, rest, rfl, q, member, spans⟩)⟩

/-- From a place on, what is left of the expressions that have begun before is tried there, and the
whole expression is tried there and at all later places. -/
theorem searchFrom_iff {r : Regex} {begun : List Regex} (within : s <:+ text) :
    r.searchFrom (s == text) begun s = true ↔
      (∃ q ∈ begun, q.Begins text s) ∨ ∃ u, u <:+ s ∧ r.Begins text u := by
  induction s generalizing begun with
  | nil => simp [searchFrom, begins_nil, or_comm]
  | cons c rest ih =>
    have inner : rest <:+ text := (List.suffix_cons c rest).trans within
    have later : (rest == text) = false := by
      rw [beq_eq_false_iff_ne]
      rintro rfl
      have shorter := within.length_le
      rw [List.length_cons] at shorter
      omega
    generalize left : ((r :: begun).flatMap (behind (c :: rest == text) c)).eraseDups = remaining
    have here : ((r :: begun).any (matchesEmpty (c :: rest == text) false) = true ∨
        ∃ q ∈ remaining, q.Begins text rest) ↔ ∃ q ∈ r :: begun, q.Begins text (c :: rest) := by
      simp only [← left, List.any_eq_true, List.mem_eraseDups, List.mem_flatMap, begins_cons,
        and_or_left, exists_or]
      refine or_congr_right ⟨?_, ?_⟩
      · rintro ⟨q, ⟨p, member, goesOn⟩, begins⟩
        exact ⟨p, member, q, goesOn, begins⟩
      · rintro ⟨p, member, q, goesOn, begins⟩
        exact ⟨q, ⟨p, member, goesOn⟩, begins⟩
    have steps : r.searchFrom false remaining rest = true ↔
        (∃ q ∈ remaining, q.Begins text rest) ∨ ∃ u, u <:+ rest ∧ r.Begins text u :=
      later ▸ ih inner
    rw [searchFrom, Bool.or_eq_true, left, steps, ← or_assoc, here]
    simp only [List.exists_mem_cons_iff, List.suffix_cons_iff, or_and_right, exists_or,
      exists_eq_left]
    rw [or_comm (a := r.Begins text (c :: rest)), or_assoc]

/-- An expression matches anywhere in a text if it spans what stands between two places of it. -/
theorem isMatch_iff {r : Regex} :
    r.isMatch text = true ↔ ∃ s, s <:+ text ∧ r.Begins text s := by
  have found : r.searchFrom (text == text) [] text = true ↔ _ :=
    searchFrom_iff (List.suffix_refl text)
  rw [beq_self_eq_true] at found
  simpa [isMatch] using found

end

end RecordQuery.Regex
