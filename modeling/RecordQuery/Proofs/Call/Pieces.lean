import Mathlib.Data.List.Forall2
import RecordQuery.Call.Evaluation

namespace RecordQuery

namespace Text

theorem joinChars_cons (separator piece : List Char) {pieces : List (List Char)}
    (nonempty : pieces ≠ []) :
    joinChars separator (piece :: pieces) = piece ++ (separator ++ joinChars separator pieces) := by
  cases pieces with
  | nil => exact absurd rfl nonempty
  | cons next rest => rw [joinChars, List.append_assoc]

theorem joinChars_nil (pieces : List (List Char)) : joinChars [] pieces = pieces.flatten := by
  induction pieces with
  | nil => rfl
  | cons piece rest ih =>
    cases rest with
    | nil => exact (List.flatten_singleton).symm
    | cons next later => rw [joinChars_cons [] piece (List.cons_ne_nil next later), ih]; rfl

theorem splitFrom_ne_nil (separator piece : List Char) (skip : Nat) (text : List Char) :
    splitFrom separator piece skip text ≠ [] := by
  induction text generalizing piece skip with
  | nil => exact List.cons_ne_nil _ _
  | cons c rest ih =>
    cases skip with
    | succ n => exact ih piece n
    | zero =>
      rw [splitFrom]
      split
      · exact List.cons_ne_nil _ _
      · exact ih (c :: piece) 0

/-- What is left of a text behind a separator that stands in front of it. -/
theorem append_drop_of_isPrefixOf {separator rest : List Char} {c : Char}
    (nonempty : separator ≠ []) (front : separator.isPrefixOf (c :: rest) = true) :
    separator ++ rest.drop (separator.length - 1) = c :: rest := by
  obtain ⟨after, same⟩ := List.isPrefixOf_iff_prefix.mp front
  cases separator with
  | nil => exact absurd rfl nonempty
  | cons d tail =>
    rw [List.cons_append] at same
    obtain ⟨rfl, rfl⟩ := List.cons.inj same
    rw [List.length_cons, Nat.add_sub_cancel, List.drop_left, List.cons_append]

/-- The pieces, put together again, are the piece being read and the text that is not passed. -/
theorem joinChars_splitFrom {separator : List Char} (nonempty : separator ≠ [])
    (piece : List Char) (skip : Nat) (text : List Char) :
    joinChars separator (splitFrom separator piece skip text) =
      piece.reverse ++ text.drop skip := by
  induction text generalizing piece skip with
  | nil => rw [splitFrom, joinChars, List.drop_nil, List.append_nil]
  | cons c rest ih =>
    cases skip with
    | succ n => rw [splitFrom, ih, List.drop_succ_cons]
    | zero =>
      rw [splitFrom, List.drop_zero]
      split
      · rename_i front
        rw [joinChars_cons _ _ (splitFrom_ne_nil _ _ _ _), ih, List.reverse_nil, List.nil_append,
          append_drop_of_isPrefixOf nonempty front]
      · rw [ih, List.drop_zero, List.reverse_cons, List.append_assoc, List.singleton_append]

/-- A text is its pieces, put together again. -/
theorem joinChars_splitChars (separator text : List Char) :
    joinChars separator (splitChars separator text) = text := by
  rw [splitChars]
  split
  · rename_i empty
    obtain rfl := List.isEmpty_iff.mp empty
    have single : (text.map fun c => [c]).flatten = text := by
      rw [← List.flatMap_def, List.flatMap_singleton']
    rw [joinChars_nil, List.cons_append, List.flatten_cons, List.flatten_append, single]
    simp
  · rename_i nonempty
    rw [joinChars_splitFrom (mt List.isEmpty_iff.mpr nonempty)]
    rfl

end Text

namespace Scalar

variable {v : Value}

theorem implode_explode (notNull : v.isNull = false) (mark : Value) :
    implode (explode v mark) mark = .text v.toText := by
  have kept : (fun item : Value => item.toText.toList) ∘
      (fun piece => Value.text (String.ofList piece)) = id := by
    funext piece
    exact String.toList_ofList
  rw [explode, notNull, if_neg Bool.false_ne_true, implode, List.map_map, kept, List.map_id,
    Text.joinChars_splitChars, String.ofList_toList]

/-- From the front of a text, a piece ends where the count says that a piece begins. -/
theorem endOf_front (size : Nat) (n : Int) : endOf size 0 n = placeIn size n := by
  unfold endOf placeIn
  split <;> omega

theorem substring_front (notNull : v.isNull = false) (k : Int64) :
    substring v (.int 0) (.int k) =
      .ok (.text (String.ofList
        (v.toText.toList.take (placeIn v.toText.toList.length k.toInt)))) := by
  have zero : integer .substring (.int 0) = .ok 0 := rfl
  have count : integer .substring (.int k) = .ok k := rfl
  have start (size : Nat) : placeIn size (0 : Int64).toInt = 0 := by
    rw [placeIn, Int64.toInt_zero, if_neg (Int.lt_irrefl 0)]
    exact Nat.zero_min size
  rw [substring, notNull, if_neg Bool.false_ne_true, zero, count]
  change Except.ok (Value.text _) = _
  rw [start, endOf_front, piece, List.drop_zero]

theorem substring_behind (notNull : v.isNull = false) (k : Int64) :
    substring v (.int k) .null =
      .ok (.text (String.ofList
        (v.toText.toList.drop (placeIn v.toText.toList.length k.toInt)))) := by
  have start : integer .substring (.int k) = .ok k := rfl
  rw [substring, notNull, if_neg Bool.false_ne_true, start]
  change Except.ok (Value.text _) = _
  rw [piece, List.take_length]

end Scalar

namespace Call

variable {ambient : Ambient} {raw row : Record}

theorem argumentValues_of_each {arguments : List Argument} {values : List Value}
    (each : List.Forall₂ (fun a v => argumentValue ambient raw row a = .ok v) arguments values) :
    argumentValues ambient raw row arguments = .ok values := by
  induction each with
  | nil => rfl
  | cons first _ ih => rw [argumentValues, first, ih]; rfl

/-- A function of one row is computed from the values of its arguments. -/
theorem argumentValue_call (kind : FunctionKind) {arguments : List Argument} {values : List Value}
    (single : kind.isAggregate = false)
    (each : List.Forall₂ (fun a v => argumentValue ambient raw row a = .ok v) arguments values) :
    argumentValue ambient raw row (.call kind arguments) =
      Scalar.compute ambient (raw.toJson ++ row.toJson) kind values := by
  rw [argumentValue, single, if_neg Bool.false_ne_true, argumentValues_of_each each]

/-- What a text is cut into makes up the text again: the pieces between separators of any kind, and
the two parts in front of a place and behind it. -/
theorem evaluate_pieces {text : Argument} {v : Value}
    (given : argumentValue ambient raw row text = .ok v) (notNull : v.isNull = false) :
    (∀ mark separator, argumentValue ambient raw row mark = .ok separator →
      evaluate ambient raw row ⟨.implode, [.call .explode [text, mark], mark]⟩ =
        .ok (.text v.toText)) ∧
    evaluate ambient raw row ⟨.implode, [.call .explode [text]]⟩ = .ok (.text v.toText) ∧
    ∀ count k, argumentValue ambient raw row count = .ok (.int k) →
      evaluate ambient raw row ⟨.concat, [.call .substring [text, .literal (.int 0), count],
        .call .substring [text, count]]⟩ = .ok (.text v.toText) := by
  have joined (separator : Value) :
      (.ok (Scalar.implode (Scalar.explode v separator) separator) : Except QueryError Value) =
        .ok (.text v.toText) := congrArg Except.ok (Scalar.implode_explode notNull separator)
  refine ⟨fun mark separator marked => ?_, ?_, fun count k counted => ?_⟩
  · have list : argumentValue ambient raw row (.call .explode [text, mark]) =
        .ok (Scalar.explode v separator) :=
      argumentValue_call .explode rfl (.cons given (.cons marked .nil))
    exact (argumentValue_call .implode rfl (.cons list (.cons marked .nil))).trans
      (joined separator)
  · have list : argumentValue ambient raw row (.call .explode [text]) =
        .ok (Scalar.explode v .null) := argumentValue_call .explode rfl (.cons given .nil)
    exact (argumentValue_call .implode rfl (.cons list .nil)).trans (joined .null)
  · have zero : argumentValue ambient raw row (.literal (.int 0)) = .ok (.int 0) := rfl
    have front := (argumentValue_call .substring rfl
      (.cons given (.cons zero (.cons counted .nil)))).trans (Scalar.substring_front notNull k)
    have behind := (argumentValue_call .substring rfl (.cons given (.cons counted .nil))).trans
      (Scalar.substring_behind notNull k)
    refine (argumentValue_call .concat rfl (.cons front (.cons behind .nil))).trans ?_
    simp only [Scalar.compute, List.map_cons, List.map_nil, Value.toText, Text.join,
      Text.joinChars, String.toList_ofList, String.toList_empty, List.append_nil,
      List.take_append_drop, String.ofList_toList]

/-- A separator that overlaps itself, a separator that is not given, and the least of all counts. -/
theorem evaluate_pieces_overlapping :
    let row : Record := ⟨[("a", .text "baaab,")]⟩
    let path := Argument.field ⟨"a", [.key "a"]⟩
    let least := Argument.literal (.int Int64.minValue)
    evaluate ⟨⟨0, 0, 0⟩, ""⟩ row row ⟨.implode, [.call .explode [path, .literal (.text "aa")],
        .literal (.text "aa")]⟩ = .ok (.text "baaab,") ∧
      evaluate ⟨⟨0, 0, 0⟩, ""⟩ row row ⟨.implode, [.call .explode [path]]⟩ = .ok (.text "baaab,") ∧
      evaluate ⟨⟨0, 0, 0⟩, ""⟩ row row ⟨.concat, [.call .substring [path, .literal (.int 0), least],
        .call .substring [path, least]]⟩ = .ok (.text "baaab,") := by
  intro row path least
  have given : argumentValue ⟨⟨0, 0, 0⟩, ""⟩ row row path = .ok (.text "baaab,") := rfl
  obtain ⟨separated, plain, cut⟩ := evaluate_pieces given rfl
  exact ⟨separated (.literal (.text "aa")) _ rfl, plain, cut least _ rfl⟩

end Call

end RecordQuery
