import Mathlib.Data.List.Forall2
import RecordQuery.Operator
import RecordQuery.Proofs.Regex.Spans

namespace RecordQuery

namespace Text

/-- Whether a character of a pattern stands for a piece of a text: a percent sign for every piece,
an underscore for every single character, and any other character for itself alone. -/
def StandsFor (place : Char) (piece : List Char) : Prop :=
  if place = '%' then True else if place = '_' then piece.length = 1 else piece = [place]

/-- Whether a text can be cut into pieces that the characters of a pattern stand for, one after the
other. -/
def IsCut (pattern text : List Char) : Prop :=
  ∃ pieces, List.Forall₂ StandsFor pattern pieces ∧ pieces.flatten = text

section

variable {place : Char} {pattern text : List Char}

theorem isCut_nil : IsCut [] text ↔ text = [] := by
  constructor
  · rintro ⟨pieces, stand, rfl⟩
    cases stand
    rfl
  · rintro rfl
    exact ⟨[], .nil, rfl⟩

theorem isCut_cons : IsCut (place :: pattern) text ↔
    ∃ piece rest, StandsFor place piece ∧ IsCut pattern rest ∧ text = piece ++ rest := by
  constructor
  · rintro ⟨pieces, stand, rfl⟩
    obtain ⟨piece, others, first, later, rfl⟩ := List.forall₂_cons_left_iff.mp stand
    exact ⟨piece, others.flatten, first, ⟨others, later, rfl⟩, List.flatten_cons⟩
  · rintro ⟨piece, _, first, ⟨others, later, rfl⟩, rfl⟩
    exact ⟨piece :: others, .cons first later, List.flatten_cons⟩

end

end Text

namespace LikePattern

open Regex (Begins Spans)
open Text (IsCut StandsFor)

variable {text s t : List Char}

/-- A repeated dot that goes with line feeds matches all that stands between two places. -/
theorem spans_anything :
    (Regex.star (.any true)).Spans text s t ↔ ∃ piece, s = piece ++ t := by
  constructor
  · intro spans
    induction spans using Relation.ReflTransGen.head_induction_on with
    | refl => exact ⟨[], rfl⟩
    | head first _ later =>
      obtain ⟨c, rfl, -⟩ := first
      obtain ⟨piece, rfl⟩ := later
      exact ⟨c :: piece, rfl⟩
  · rintro ⟨piece, rfl⟩
    induction piece with
    | nil => exact .refl
    | cons c piece ih => exact .head ⟨c, rfl, .inl rfl⟩ ih

/-- What a character of a pattern is made into matches the pieces that it stands for. -/
theorem spans_part {c : Char} :
    (part c).Spans text s t ↔ ∃ piece, StandsFor c piece ∧ s = piece ++ t := by
  unfold part
  split
  · rw [spans_anything]
    simp [StandsFor]
  · constructor
    · rintro ⟨d, rfl, -⟩
      exact ⟨[d], rfl, rfl⟩
    · rintro ⟨piece, single, rfl⟩
      obtain ⟨d, rfl⟩ := List.length_eq_one_iff.mp single
      exact ⟨d, rfl, .inl rfl⟩
  · rename_i percent underscore
    simp only [StandsFor, Spans, if_neg percent, if_neg underscore, exists_eq_left]
    rfl

/-- What a pattern is made into matches from a place on to the end of the text if the pattern can
cut what stands there. -/
theorem begins_toStop (text pattern : List Char) :
    (toStop pattern).Begins text s ↔ IsCut pattern s := by
  induction pattern generalizing s with
  | nil =>
    rw [Text.isCut_nil]
    constructor
    · rintro ⟨_, _, ⟨empty, rfl⟩, -⟩
      exact empty
    · rintro rfl
      exact ⟨[], [], ⟨rfl, rfl⟩, rfl⟩
  | cons c pattern ih =>
    rw [Text.isCut_cons]
    constructor
    · rintro ⟨t, u, first, later⟩
      obtain ⟨piece, stands, whole⟩ := spans_part.mp first
      exact ⟨piece, u, stands, ih.mp ⟨t, later⟩, whole⟩
    · rintro ⟨piece, u, stands, cut, whole⟩
      obtain ⟨t, later⟩ := ih.mpr cut
      exact ⟨t, u, spans_part.mpr ⟨piece, stands, whole⟩, later⟩

/-- A pattern goes with just the texts that it can cut. -/
theorem isMatch_ofText (pattern text : String) :
    (ofText pattern).isMatch text = true ↔ IsCut pattern.toList text.toList := by
  rw [isMatch, regex_ofText, Regex.isMatch_iff, ← begins_toStop text.toList]
  constructor
  · rintro ⟨_, -, t, _, ⟨rfl, rfl⟩, later⟩
    exact ⟨t, later⟩
  · rintro ⟨t, later⟩
    exact ⟨text.toList, List.suffix_refl _, t, text.toList, ⟨rfl, rfl⟩, later⟩

end LikePattern

namespace Operator

/-- A value is like a pattern when it is not null and its whole text can be cut into pieces that the
characters of the pattern stand for. It is not like the pattern in all other cases. -/
theorem apply_like_iff (v operand : Value) :
    (Operator.like.apply v operand = true ↔
      v ≠ .null ∧ Text.IsCut operand.toText.toList v.toText.toList) ∧
    (Operator.notLike.apply v operand = true ↔
      v = .null ∨ ¬ Text.IsCut operand.toText.toList v.toText.toList) := by
  have null : v.isNull = true ↔ v = .null := by cases v <;> simp [Value.isNull]
  have like : Operator.like.apply v operand = true ↔
      v ≠ .null ∧ Text.IsCut operand.toText.toList v.toText.toList := by
    rw [Operator.apply, Value.isLike, Bool.and_eq_true, Bool.not_eq_true', ← Bool.not_eq_true, null,
      LikePattern.isMatch_ofText]
  refine ⟨like, ?_⟩
  have converse : Operator.notLike.apply v operand = !Operator.like.apply v operand := rfl
  rw [converse, Bool.not_eq_true', ← Bool.not_eq_true, like, not_and_or, not_not]

example : Operator.like.apply (.text "a.\n\n\\cé") (.text "a.%_c%") = true := by decide +kernel

end Operator

end RecordQuery
