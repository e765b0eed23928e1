import Mathlib.Data.List.Forall2
import RecordQuery.Output.Csv

namespace RecordQuery.Output.Csv

/-- Where a reader stands: in front of a cell, inside of one that is written as it is, between
quotes, or behind a quote that closes its cell unless another quote follows. -/
inductive Place where
  | front
  | bare
  | quoted
  | behindQuote
  deriving DecidableEq

/-- The lines of a text with their cells. The cell and the line being read are kept reversed, and
what no line break follows is no line. -/
def readFrom (place : Place) (cell : List Char) (cells : List (List Char)) :
    List Char → List (List (List Char))
  | [] => []
  | c :: rest =>
    if place = .quoted then
      if c = '"' then readFrom .behindQuote cell cells rest
      else readFrom .quoted (c :: cell) cells rest
    else if c = ',' then readFrom .front [] (cell.reverse :: cells) rest
    else if c = '\n' then (cell.reverse :: cells).reverse :: readFrom .front [] [] rest
    else if c = '"' ∧ place = .front then readFrom .quoted cell cells rest
    else if c = '"' ∧ place = .behindQuote then readFrom .quoted (c :: cell) cells rest
    else readFrom .bare (c :: cell) cells rest

def readLines (text : List Char) : List (List (List Char)) :=
  readFrom .front [] [] text

section

variable {cell cs rest : List Char} {cells : List (List Char)}

/-- A comma and a line break end a cell wherever the reader stands outside of quotes. -/
theorem readFrom_ends {place : Place} (outside : place ≠ .quoted) {c : Char}
    (ends : c = ',' ∨ c = '\n') :
    readFrom place cell cells (c :: rest) = readFrom .front cell cells (c :: rest) := by
  have front : Place.front ≠ .quoted := nofun
  rcases ends with rfl | rfl
  · simp only [readFrom, if_neg outside, if_neg front, if_true]
  · have other : '\n' ≠ ',' := by decide
    simp only [readFrom, if_neg outside, if_neg front, if_neg other, if_true]

theorem readFrom_comma :
    readFrom .front cell cells (',' :: rest) = readFrom .front [] (cell.reverse :: cells) rest :=
  rfl

theorem readFrom_break : readFrom .front cell cells ('\n' :: rest) =
    (cell.reverse :: cells).reverse :: readLines rest :=
  rfl

/-- Whether a character may stand in a cell that is written as it is. -/
def IsPlain (c : Char) : Prop :=
  c ≠ ',' ∧ c ≠ '"' ∧ c ≠ '\n'

theorem readFrom_bare (plain : ∀ c ∈ cs, IsPlain c) :
    readFrom .bare cell cells (cs ++ rest) = readFrom .bare (cs.reverse ++ cell) cells rest := by
  induction cs generalizing cell with
  | nil => rfl
  | cons c more ih =>
    obtain ⟨⟨comma, quote, lineBreak⟩, later⟩ := List.forall_mem_cons.mp plain
    have inside : Place.bare ≠ .quoted := nofun
    rw [List.cons_append, readFrom, if_neg inside, if_neg comma, if_neg lineBreak,
      if_neg fun both => quote both.1, if_neg fun both => quote both.1, ih later,
      List.reverse_cons, List.append_assoc, List.singleton_append]

/-- Between quotes, two quotes are read as one. -/
theorem readFrom_doubled : readFrom .quoted cell cells (doubled cs ++ rest) =
    readFrom .quoted (cs.reverse ++ cell) cells rest := by
  induction cs generalizing cell with
  | nil => rfl
  | cons c more ih =>
    rw [List.reverse_cons, List.append_assoc, List.singleton_append, ← ih]
    by_cases quote : c = '"'
    · subst quote
      rfl
    · rw [doubled, if_neg quote, List.cons_append, readFrom, if_pos rfl, if_neg quote]

theorem writtenCell_of_plain (plain : ∀ c ∈ cs, IsPlain c) : writtenCell cs = cs := by
  have absent {d : Char} (special : ¬ IsPlain d) : cs.contains d = false := by
    rw [← Bool.not_eq_true, List.contains_iff_mem]
    exact fun member => special (plain d member)
  have comma := absent fun plain : IsPlain ',' => plain.1 rfl
  have quote := absent fun plain : IsPlain '"' => plain.2.1 rfl
  have lineBreak := absent fun plain : IsPlain '\n' => plain.2.2 rfl
  rw [writtenCell, comma, quote, lineBreak]
  rfl

theorem writtenCell_of_not_plain (special : ¬ ∀ c ∈ cs, IsPlain c) :
    writtenCell cs = '"' :: doubled cs ++ ['"'] := by
  refine if_pos ?_
  by_contra unmarked
  refine special fun c member => ⟨?_, ?_, ?_⟩ <;> rintro rfl <;> simp [member] at unmarked

/-- A written cell is read as the cell, in front of what ends it. -/
theorem readFrom_writtenCell {c : Char} (ends : c = ',' ∨ c = '\n') :
    readFrom .front [] cells (writtenCell cs ++ c :: rest) =
      readFrom .front cs.reverse cells (c :: rest) := by
  by_cases plain : ∀ c ∈ cs, IsPlain c
  · rw [writtenCell_of_plain plain]
    cases cs with
    | nil => rfl
    | cons d more =>
      obtain ⟨⟨comma, quote, lineBreak⟩, later⟩ := List.forall_mem_cons.mp plain
      have front : Place.front ≠ .quoted := nofun
      have bare : Place.bare ≠ .quoted := nofun
      rw [List.cons_append, readFrom, if_neg front, if_neg comma, if_neg lineBreak,
        if_neg fun both => quote both.1, if_neg fun both => quote both.1, readFrom_bare later,
        readFrom_ends bare ends, List.reverse_cons]
  · have opened (text : List Char) :
        readFrom .front [] cells ('"' :: text) = readFrom .quoted [] cells text := rfl
    have closed (text : List Char) : readFrom .quoted cs.reverse cells ('"' :: text) =
        readFrom .behindQuote cs.reverse cells text := rfl
    have behind : Place.behindQuote ≠ .quoted := nofun
    rw [writtenCell_of_not_plain plain, List.cons_append, List.cons_append, opened,
      List.append_assoc, readFrom_doubled, List.append_nil, List.singleton_append, closed,
      readFrom_ends behind ends]

end

/-- A line is read as its cells. -/
theorem readFrom_line (cells : List (List Char)) {line : List (List Char)} (nonempty : line ≠ [])
    (rest : List Char) : readFrom .front [] cells (Csv.line line ++ rest) =
      (cells.reverse ++ line) :: readLines rest := by
  rw [Csv.line, List.append_assoc, List.singleton_append]
  induction line generalizing cells with
  | nil => exact absurd rfl nonempty
  | cons cell more ih =>
    cases more with
    | nil =>
      rw [List.map_singleton, Text.joinChars, readFrom_writtenCell (.inr rfl), readFrom_break,
        List.reverse_reverse, List.reverse_cons]
    | cons next later =>
      rw [List.map_cons, List.map_cons, Text.joinChars, List.append_assoc, List.append_assoc,
        List.singleton_append, readFrom_writtenCell (.inl rfl), readFrom_comma,
        List.reverse_reverse, ← List.map_cons, ih (cell :: cells) (List.cons_ne_nil next later),
        List.reverse_cons, List.append_assoc, List.singleton_append]

theorem readLines_lines {lines : List (List (List Char))} (each : ∀ line ∈ lines, line ≠ []) :
    readLines (lines.flatMap line) = lines := by
  induction lines with
  | nil => rfl
  | cons first more ih =>
    obtain ⟨nonempty, later⟩ := List.forall_mem_cons.mp each
    rw [List.flatMap_cons, readLines, readFrom_line [] nonempty, ih later, List.reverse_nil,
      List.nil_append]

/-- The cells of rows, under the names of their columns. -/
def table (rows : List Record) : List (List (List Char)) :=
  (columns rows).map String.toList :: rows.map fun r => (columns rows).map (cell r)

theorem renderChars_eq (rows : List Record) : renderChars rows = (table rows).flatMap line := by
  rw [renderChars, table, List.flatMap_cons, List.flatMap_map]

/-- Rows with a column are read back from their text. -/
theorem readLines_renderChars {rows : List Record} (nonempty : columns rows ≠ []) :
    readLines (renderChars rows) = table rows := by
  rw [renderChars_eq]
  refine readLines_lines fun line member => ?_
  rcases List.mem_cons.mp member with rfl | row
  · exact mt List.map_eq_nil_iff.mp nonempty
  · obtain ⟨r, -, rfl⟩ := List.mem_map.mp row
    exact mt List.map_eq_nil_iff.mp nonempty

/-- Two lists of rows have one text exactly when they have the same columns, as many rows, and in
every row and column the same cell. -/
theorem renderChars_unambiguous {rows others : List Record} (nonempty : columns rows ≠ [])
    (othersNonempty : columns others ≠ []) :
    renderChars rows = renderChars others ↔
      columns rows = columns others ∧ rows.length = others.length ∧
        List.Forall₂ (fun r other => ∀ column ∈ columns rows, cell r column = cell other column)
          rows others := by
  have tables : renderChars rows = renderChars others ↔ table rows = table others := by
    constructor
    · intro same
      rw [← readLines_renderChars nonempty, same, readLines_renderChars othersNonempty]
    · intro same
      rw [renderChars_eq, same, renderChars_eq]
  have names : (columns rows).map String.toList = (columns others).map String.toList ↔
      columns rows = columns others :=
    (List.map_injective_iff.mpr fun _ _ => String.toList_inj.mp).eq_iff
  rw [tables, table, table, List.cons_eq_cons, names]
  refine and_congr_right fun same => ?_
  rw [← same, ← List.forall₂_eq_eq_eq, List.forall₂_map_left_iff, List.forall₂_map_right_iff]
  simp only [List.map_inj_left]
  exact ⟨fun each => ⟨each.length_eq, each⟩, And.right⟩

/-- Null and a text of the same spelling, and an empty cell and one that is missing. -/
theorem renderChars_unambiguous_null :
    let rows : List Record := [⟨[("a,b", .text "\"\n"), ("c", .null)]⟩, ⟨[("c", .bool true)]⟩]
    let others : List Record :=
      [⟨[("a,b", .text "\"\n"), ("c", .text "null")]⟩, ⟨[("a,b", .text ""), ("c", .text "true")]⟩]
    columns rows ≠ [] ∧ columns others ≠ [] ∧ renderChars rows = renderChars others ∧
      columns rows = columns others ∧ rows.length = others.length ∧
        List.Forall₂ (fun r other => ∀ column ∈ columns rows, cell r column = cell other column)
          rows others := by
  intro rows others
  have nonempty : columns rows ≠ [] := by decide
  have othersNonempty : columns others ≠ [] := by decide
  have same : renderChars rows = renderChars others := by decide
  exact ⟨nonempty, othersNonempty, same, (renderChars_unambiguous nonempty othersNonempty).mp same⟩

end RecordQuery.Output.Csv
