import RecordQuery.Proofs.Canonical.Argument
import RecordQuery.Proofs.Statement.Reader
import RecordQuery.Proofs.Token.Shift

namespace RecordQuery

section

variable {position : Nat} {name : String}

theorem Call.ofNameAt_anywhere {arguments : List Argument} {c : Call}
    (read : ofNameAt position name arguments = .ok c) (other : Nat) :
    ofNameAt other name arguments = .ok c := by
  rw [ofNameAt, ok_of_mapError_ok read]
  rfl

theorem Call.ofTexts_of_arguments {texts : List String} {c : Call} {other : Nat}
    (same : ∀ text ∈ texts, ∀ a, Argument.ofText position name text = .ok a →
      Argument.ofText other name text = .ok a)
    (read : ofTexts position name texts = .ok c) : ofTexts other name texts = .ok c := by
  obtain ⟨arguments, given, read⟩ := exists_of_bind_ok read
  rw [ofTexts, mapM_ok_congr same given]
  exact ofNameAt_anywhere read other

/-- An argument that is read at one position of a statement is read so at every one. -/
theorem Argument.ofText_anywhere {function text : String} {a : Argument}
    (read : ofText position function text = .ok a) (other : Nat) :
    ofText other function text = .ok a := by
  obtain ⟨l, single, ⟨name, texts, c, token, made, rfl⟩ | value⟩ := exists_of_ofText read
  · have member : l ∈ Lexeme.ofText text := by
      rw [single]
      exact List.mem_singleton_self l
    have again : Call.ofTexts other name texts = .ok c :=
      Call.ofTexts_of_arguments (fun inner inside b same =>
        have shorter := Lexeme.length_argument_lt member token inside
        ofText_anywhere same other) made
    rw [ofText_call (by rw [single, List.map_singleton, token]), again]
    rfl
  · exact ofText_token (by rw [single, List.map_singleton]) value other function
termination_by text.toList.length

theorem Call.ofTexts_anywhere {texts : List String} {c : Call}
    (read : ofTexts position name texts = .ok c) (other : Nat) :
    ofTexts other name texts = .ok c :=
  ofTexts_of_arguments (fun _ _ _ same => Argument.ofText_anywhere same other) read

end

/-- The same steps are taken alike at other positions. -/
theorem NestedDraft.takeAll_congr {xs ys : List PlacedStep} (n : NestedDraft)
    (same : ys.map PlacedStep.step = xs.map PlacedStep.step) :
    (∃ m, n.takeAll xs = (m, none) ∧ n.takeAll ys = (m, none)) ∨
      ∃ m e e', n.takeAll xs = (m, some e) ∧ n.takeAll ys = (m, some e') := by
  induction xs generalizing ys n with
  | nil =>
    obtain rfl := List.map_eq_nil_iff.mp same
    exact .inl ⟨n, rfl, rfl⟩
  | cons x xs ih =>
    obtain ⟨y, ys, rfl, first, later⟩ := List.map_eq_cons_iff.mp same
    rw [takeAll, takeAll, first]
    obtain ⟨next, fault⟩ := n.take x.step
    cases fault with
    | none => exact ih next later
    | some fault => exact .inr ⟨next, _, _, rfl, rfl⟩

namespace Statement

/-- Heads, places and readers of the same text with more in front of it. -/
def JoinHead.shift (offset : Nat) (head : JoinHead) : JoinHead :=
  { head with start := head.start + offset }

def TestHead.shift (offset : Nat) (head : TestHead) : TestHead :=
  { head with start := head.start + offset, parens := head.parens.map (· + offset) }

def Comparison.shift (offset : Nat) : Comparison → Comparison
  | .keys head aliasName left => .keys (head.shift offset) aliasName left
  | .test head field => .test (head.shift offset) field

def Awaiting.shift (offset : Nat) : Awaiting → Awaiting
  | .pastSource stop => .pastSource (stop + offset)
  | .joinWord head outer => .joinWord (head.shift offset) outer
  | .right head => .right (head.shift offset)
  | .afterRight head => .afterRight (head.shift offset)
  | .joinAlias head => .joinAlias (head.shift offset)
  | .on head aliasName => .on (head.shift offset) aliasName
  | .leftKey head aliasName => .leftKey (head.shift offset) aliasName
  | .rightKey head aliasName left op => .rightKey (head.shift offset) aliasName left op
  | .afterOrderKey start field => .afterOrderKey (start + offset) field
  | .condition connective parens => .condition connective (parens.map (· + offset))
  | .operator c => .operator (c.shift offset)
  | .afterIs c => .afterIs (c.shift offset)
  | .afterNot c start => .afterNot (c.shift offset) (start + offset)
  | .operand head field op => .operand (head.shift offset) field op
  | .list head field op => .list (head.shift offset) field op
  | .listStart head field op => .listStart (head.shift offset) field op
  | .listItem head field op items => .listItem (head.shift offset) field op items
  | .afterListItem head field op items =>
    .afterListItem (head.shift offset) field op items
  | .afterCondition parens => .afterCondition (parens.map (· + offset))
  | other => other

def AroundQuery.shift (offset : Nat) (a : AroundQuery) : AroundQuery :=
  { a with head := a.head.shift offset }

def Place.shift (offset : Nat) (p : Place) : Place :=
  ⟨p.clauses, p.around.map (AroundQuery.shift offset), p.awaiting.shift offset⟩

def Reader.shift (offset : Nat) (r : Reader) : Reader :=
  { r with place := r.place.shift offset }

/-- A move and the one that takes its place in the same text with more in front of it. Why they are
refused does not matter. -/
inductive Move.Shifts (offset : Nat) : Move → Move → Prop
  | leads {steps shifted : List PlacedStep} {next : Place} :
      shifted.map PlacedStep.step = steps.map PlacedStep.step →
      Shifts offset ⟨steps, .ok next⟩ ⟨shifted, .ok (next.shift offset)⟩
  | refused {steps shifted : List PlacedStep} {e e' : QueryError} :
      Shifts offset ⟨steps, .error e⟩ ⟨shifted, .error e'⟩

theorem Move.Shifts.cons {offset : Nat} {m shifted : Move} (shifts : Shifts offset m shifted)
    (position other : Nat) (s : Step) :
    Shifts offset { m with steps := ⟨position, s⟩ :: m.steps }
      { shifted with steps := ⟨other, s⟩ :: shifted.steps } := by
  cases shifts with
  | leads same => exact .leads (congrArg (s :: ·) same)
  | refused => exact .refused

namespace Place

open Move (Shifts)

variable (offset : Nat) (p : Place) (l : Lexeme)

theorem begin_shift (k : Keyword) (c : Clause) :
    Shifts offset (p.begin l k c) ((p.shift offset).begin (l.shift offset) k c) := by
  cases c with
  | join => cases k <;> exact .leads rfl
  | _ => exact .leads rfl

theorem meetClause_shift (k : Keyword) (c : Clause) :
    Shifts offset (p.meetClause l k c) ((p.shift offset).meetClause (l.shift offset) k c) := by
  obtain ⟨clauses, around, awaiting⟩ := p
  have begun := begin_shift offset ⟨c :: clauses, around, awaiting⟩ l k c
  unfold meetClause shift
  dsimp only
  split
  · exact .refused
  · split
    · exact begun
    · split
      · exact .refused
      · exact begun

theorem atClause_shift : Shifts offset (p.atClause l) ((p.shift offset).atClause (l.shift offset)) := by
  obtain ⟨clauses, around, awaiting⟩ := p
  obtain ⟨start, stop, token, behind⟩ := l
  cases token with
  | keyword k =>
    unfold atClause
    dsimp only [Lexeme.shift]
    cases Clause.ofKeyword? k with
    | none => exact .refused
    | some c => exact meetClause_shift offset ⟨clauses, around, awaiting⟩ ⟨start, stop, _, behind⟩ k c
  | sign s => cases s <;> cases around <;> first | exact .refused | exact .leads rfl
  | _ => exact .refused

theorem atComma_shift (next : Awaiting) :
    Shifts offset (p.atComma l next)
      ((p.shift offset).atComma (l.shift offset) (next.shift offset)) := by
  have clause := atClause_shift offset p l
  obtain ⟨start, stop, token, behind⟩ := l
  unfold atComma Lexeme.shift
  dsimp only
  split
  · exact .leads rfl
  · exact clause

theorem atItem_shift : Shifts offset (p.atItem l) ((p.shift offset).atItem (l.shift offset)) := by
  obtain ⟨start, stop, token, behind⟩ := l
  cases token with
  | sign s => cases s <;> first | exact .leads rfl | exact .refused
  | path => exact .leads rfl
  | call name texts =>
    unfold atItem Lexeme.shift
    dsimp only
    cases made : Call.ofTexts start name texts with
    | ok call =>
      rw [Call.ofTexts_anywhere made (start + offset)]
      exact .leads rfl
    | error e =>
      cases moved : Call.ofTexts (start + offset) name texts with
      | ok call => cases made.symm.trans (Call.ofTexts_anywhere moved start)
      | error => exact .refused
  | _ => exact .refused

theorem atSource_shift :
    Shifts offset (p.atSource l) ((p.shift offset).atSource (l.shift offset)) := by
  obtain ⟨start, stop, token, behind⟩ := l
  cases token with
  | sign s =>
    cases s with
    | openParen =>
      unfold atSource Lexeme.shift
      dsimp only
      cases pathLocator? behind with
      | none => exact .refused
      | some cs =>
        dsimp only
        rw [Nat.add_right_comm start offset]
        exact .leads rfl
    | star => exact .leads rfl
    | _ => exact .refused
  | path | quoted | locator => exact .leads rfl
  | _ => exact .refused

theorem behindOperator_shift (c : Comparison) (op : Operator) :
    behindOperator (c.shift offset) op = (behindOperator c op).shift offset := by
  cases c with
  | keys => rfl
  | test => cases op <;> rfl

theorem atOperator_shift (c : Comparison) :
    Shifts offset (p.atOperator l c)
      ((p.shift offset).atOperator (l.shift offset) (c.shift offset)) := by
  obtain ⟨start, stop, token, behind⟩ := l
  unfold atOperator Lexeme.shift
  dsimp only
  split
  · exact .leads rfl
  · exact .leads rfl
  · cases operator? token with
    | none => exact .refused
    | some op =>
      dsimp only
      rw [behindOperator_shift]
      exact .leads rfl

theorem atRightKey_shift (head : JoinHead) (aliasName : Option String) (left : String)
    (op : Operator) :
    Shifts offset (p.atRightKey l head aliasName left op)
      ((p.shift offset).atRightKey (l.shift offset) (head.shift offset) aliasName left op) := by
  obtain ⟨start, stop, token, behind⟩ := l
  cases token with
  | path => exact .leads rfl
  | _ => exact .refused

theorem test_shift (head : TestHead) (field : String) (op : Operator) (operand : Value) :
    Shifts offset (p.test head field op operand)
      ((p.shift offset).test (head.shift offset) field op operand) := by
  unfold test
  cases FieldPath.forQuery field with
  | ok path => exact .leads rfl
  | error fault => exact .refused

theorem atOperand_shift (head : TestHead) (field : String) (op : Operator) :
    Shifts offset (p.atOperand l head field op)
      ((p.shift offset).atOperand (l.shift offset) (head.shift offset) field op) := by
  obtain ⟨start, stop, token, behind⟩ := l
  unfold atOperand Lexeme.shift
  dsimp only
  cases literal? token with
  | none => exact .refused
  | some v => exact test_shift ..

theorem atListItem_shift (head : TestHead) (field : String) (op : Operator) (items : List Value) :
    Shifts offset (p.atListItem l head field op items)
      ((p.shift offset).atListItem (l.shift offset) (head.shift offset) field op items) := by
  obtain ⟨start, stop, token, behind⟩ := l
  unfold atListItem Lexeme.shift
  dsimp only
  cases literal? token with
  | none => exact .refused
  | some v => exact .leads rfl

theorem atCondition_shift (connective : Connective) (parens : List Nat) :
    Shifts offset (p.atCondition l connective parens)
      ((p.shift offset).atCondition (l.shift offset) connective (parens.map (· + offset))) := by
  obtain ⟨start, stop, token, behind⟩ := l
  cases token with
  | sign s => cases s <;> first | exact .leads rfl | exact .refused
  | path => exact .leads rfl
  | _ => exact .refused

theorem afterCondition_shift (parens : List Nat) :
    Shifts offset (p.afterCondition l parens)
      ((p.shift offset).afterCondition (l.shift offset) (parens.map (· + offset))) := by
  have clause := atClause_shift offset p l
  obtain ⟨start, stop, token, behind⟩ := l
  unfold afterCondition Lexeme.shift
  dsimp only
  cases connective? token with
  | some connective => exact .leads rfl
  | none =>
    cases parens with
    | nil => exact clause
    | cons start rest =>
      dsimp only [List.map_cons]
      split
      · exact .leads rfl
      · exact .refused

theorem afterOrderKey_shift (start : Nat) (field : String) :
    Shifts offset (p.afterOrderKey l start field)
      ((p.shift offset).afterOrderKey (l.shift offset) (start + offset) field) := by
  have comma := atComma_shift offset p l .orderKey
  obtain ⟨_, stop, token, behind⟩ := l
  unfold afterOrderKey Lexeme.shift
  dsimp only
  cases direction? token with
  | some direction => exact .leads rfl
  | none => exact comma.cons ..

/-- A lexeme leads on in the same way when there is more in front of the text. -/
theorem meet_shift : Shifts offset (p.meet l) ((p.shift offset).meet (l.shift offset)) := by
  have clause := atClause_shift offset p l
  have comma := atComma_shift offset p l
  have item := atItem_shift offset p l
  have source := atSource_shift offset p l
  have operator := atOperator_shift offset p l
  have rightKey := atRightKey_shift offset p l
  have operand := atOperand_shift offset p l
  have listItem := atListItem_shift offset p l
  have test := test_shift offset p
  have condition := atCondition_shift offset p l
  have afterCondition := afterCondition_shift offset p l
  have orderKey := afterOrderKey_shift offset p l
  obtain ⟨clauses, around, awaiting⟩ := p
  obtain ⟨start, stop, token, behind⟩ := l
  cases awaiting with
  | clause => exact clause
  | item => exact item
  | itemAfterSelect =>
    cases token with
    | keyword k => cases k <;> first | exact .leads rfl | exact item
    | _ => exact item
  | afterItem =>
    cases token with
    | keyword k => cases k <;> first | exact .leads rfl | exact comma .item
    | _ => exact comma .item
  | afterItemAlias => exact comma .item
  | afterGroupKey => exact comma .groupKey
  | afterDirection => exact comma .orderKey
  | afterOrderKey => exact orderKey ..
  | source => exact source
  -- Here alone a place is compared with the byte at which a lexeme begins.
  | pastSource place =>
    change Shifts offset (if start < place then _ else _)
      (if start + offset < place + offset then _ else _)
    simp only [Nat.add_lt_add_iff_right]
    split
    · exact .leads rfl
    · exact clause
  | itemAlias | joinAlias =>
    cases token with
    | path | quoted => exact .leads rfl
    | _ => exact .refused
  | groupKey | orderKey | leftKey =>
    cases token with
    | path => exact .leads rfl
    | _ => exact .refused
  | groupBy | orderBy | afterRight | on =>
    cases token with
    | keyword k => cases k <;> first | exact .leads rfl | exact .refused
    | _ => exact .refused
  | joinWord head outer =>
    cases token with
    | keyword k => cases outer <;> cases k <;> first | exact .leads rfl | exact .refused
    | _ => cases outer <;> exact .refused
  | right =>
    cases token with
    | sign s => cases s <;> first | exact .leads rfl | exact .refused
    | _ => exact .refused
  | rightKey => exact rightKey ..
  | count c =>
    cases token with
    | number text =>
      unfold meet shift Lexeme.shift
      dsimp only [Awaiting.shift]
      cases count? text with
      | some n => exact .leads rfl
      | none => exact .refused
    | _ => exact .refused
  | condition => exact condition ..
  | afterCondition parens => exact afterCondition parens
  | operator c => exact operator c
  | afterIs c =>
    cases c with
    | keys =>
      cases token with
      | keyword k => cases k <;> first | exact .leads rfl | exact rightKey ..
      | _ => exact rightKey ..
    | test =>
      cases token with
      | keyword k => cases k <;> first | exact .leads rfl | exact operand ..
      | _ => exact operand ..
  | afterNot c =>
    cases token with
    | keyword k => cases c <;> cases k <;> first | exact .leads rfl | exact .refused
    | _ => exact .refused
  | operand => exact operand ..
  | list =>
    cases token with
    | sign s => cases s <;> first | exact .leads rfl | exact .refused
    | path | quoted | number => exact test ..
    | _ => exact .refused
  | listStart =>
    cases token with
    | sign s => cases s <;> first | exact test .. | exact listItem ..
    | _ => exact listItem ..
  | listItem => exact listItem ..
  | afterListItem =>
    cases token with
    | sign s => cases s <;> first | exact .leads rfl | exact test .. | exact .refused
    | _ => exact .refused

theorem finish_shift (stop other : Nat) :
    ((p.shift offset).finish other).1.map PlacedStep.step =
        (p.finish stop).1.map PlacedStep.step ∧
      (((p.shift offset).finish other).2 = none ↔ (p.finish stop).2 = none) := by
  obtain ⟨clauses, around, awaiting⟩ := p
  have ends : (Place.mk clauses (around.map (AroundQuery.shift offset))
        (awaiting.shift offset)).atEnd other = none ↔
      (Place.mk clauses around awaiting).atEnd stop = none := by
    cases around <;> simp [atEnd]
  cases awaiting with
  | afterCondition parens =>
    cases parens with
    | nil => exact ⟨rfl, ends⟩
    | cons => exact ⟨rfl, by simp [finish, shift, Awaiting.shift]⟩
  | clause | afterItem | afterItemAlias | pastSource | afterGroupKey | afterOrderKey
    | afterDirection => exact ⟨rfl, ends⟩
  | _ => exact ⟨rfl, by simp [finish, shift, Awaiting.shift]⟩

end Place

namespace Reader

variable (offset : Nat) (r : Reader)

theorem move_shift {m shifted : Move} (shifts : m.Shifts offset shifted) :
    (r.shift offset).move shifted = (r.move m).map (Reader.shift offset) := by
  cases shifts with
  | refused => rfl
  | leads same =>
    rcases r.draft.takeAll_congr same with ⟨m, first, second⟩ | ⟨m, e, e', first, second⟩
    · simp only [move, shift, first, second, Option.map_some]
    · simp only [move, shift, first, second, Option.map_none]

theorem readAll_shift (ls : List Lexeme) :
    (r.shift offset).readAll (ls.map (Lexeme.shift offset)) =
      (r.readAll ls).map (Reader.shift offset) := by
  induction ls generalizing r with
  | nil => rfl
  | cons l rest ih =>
    have read : (r.shift offset).read (l.shift offset) = (r.read l).map (Reader.shift offset) :=
      move_shift offset r (r.place.meet_shift offset l)
    rw [List.map_cons, readAll, readAll, read, Option.bind_map, Option.map_bind]
    exact congrArg _ (funext ih)

/-- At which byte a text ends does not matter to what its end leads to. -/
theorem finish_shift (stop other : Nat) : (r.shift offset).finish other = r.finish stop := by
  obtain ⟨same, ends⟩ := r.place.finish_shift offset stop other
  unfold finish shift
  dsimp only
  rcases first : r.place.finish stop with ⟨steps, e⟩
  rcases second : (r.place.shift offset).finish other with ⟨shifted, e'⟩
  simp only [first, second] at same ends
  cases e with
  | some e =>
    cases e' with
    | some e' => rfl
    | none => cases ends.mp rfl
  | none =>
    obtain rfl := ends.mpr rfl
    rcases r.draft.takeAll_congr same with ⟨m, taken, again⟩ | ⟨m, e, e', taken, again⟩
    · simp only [taken, again]
    · simp only [taken, again]

/-- A reader comes to the end of a text with the same drafts when there is more in front of it. -/
theorem endsIn_shift {ls : List Lexeme} {n : NestedDraft} :
    (r.shift offset).EndsIn (ls.map (Lexeme.shift offset)) n ↔ r.EndsIn ls n := by
  unfold EndsIn
  constructor
  · rintro ⟨last, stop, reads, finishes⟩
    rw [readAll_shift] at reads
    obtain ⟨before, first, rfl⟩ := Option.map_eq_some_iff.mp reads
    exact ⟨before, stop, first, (finish_shift offset before stop stop) ▸ finishes⟩
  · rintro ⟨last, stop, reads, finishes⟩
    exact ⟨last.shift offset, stop, by rw [readAll_shift, reads]; rfl,
      (finish_shift offset last stop stop).trans finishes⟩

end Reader

end Statement

end RecordQuery
