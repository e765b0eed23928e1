import RecordQuery.Proofs.Canonical.Call
import RecordQuery.Proofs.Except
import RecordQuery.Proofs.Statement.Meets

namespace RecordQuery

/-- Whether an error is told at a position of some kind. An unknown function is told without one. -/
def QueryError.IsAt (P : Nat → Prop) : QueryError → Prop
  | .parse position _ => P position
  | .unknownFunction _ => True
  | _ => False

/-- Whether the call that a step selects, if it selects one, is of some kind. -/
def Step.Selects (Q : Call → Prop) : Step → Prop
  | .selectCall c => Q c
  | _ => True

theorem Call.isAt_of_ofNameAt {position : Nat} {name : String} {arguments : List Argument}
    {e : QueryError} (failed : ofNameAt position name arguments = .error e) :
    e.IsAt (· = position) := by
  obtain ⟨told, named, rfl⟩ := exists_of_mapError_error failed
  unfold ofName at named
  split at named
  · cases named
    trivial
  · obtain ⟨fault, -, rfl⟩ := exists_of_mapError_error named
    rfl

theorem Call.isAt_of_arguments {position : Nat} {name : String} {texts : List String}
    {e : QueryError}
    (each : ∀ text ∈ texts, ∀ e, Argument.ofText position name text = .error e →
      e.IsAt (· = position))
    (failed : ofTexts position name texts = .error e) : e.IsAt (· = position) := by
  rcases of_bind_error failed with given | ⟨arguments, -, named⟩
  · obtain ⟨text, member, wrong⟩ := exists_of_mapM_error given
    exact each text member e wrong
  · exact isAt_of_ofNameAt named

/-- What is wrong in an argument, at any depth, is told at the position that is given. -/
theorem Argument.isAt_of_ofText {position : Nat} {function text : String} {e : QueryError}
    (failed : ofText position function text = .error e) : e.IsAt (· = position) := by
  by_cases called : ∃ l name texts, Lexeme.ofText text = [l] ∧ l.token = .call name texts
  · obtain ⟨l, name, texts, single, token⟩ := called
    have member : l ∈ Lexeme.ofText text := by
      rw [single]
      exact List.mem_singleton_self l
    rw [ofText_call (by rw [single, List.map_singleton, token])] at failed
    exact Call.isAt_of_arguments (fun inner inside e' wrong =>
      have shorter := Lexeme.length_argument_lt member token inside
      isAt_of_ofText wrong) (error_of_map_error failed)
  · rw [ofText] at failed
    split at failed
    · rename_i l single
      split at failed
      · rename_i name texts token
        exact absurd ⟨l, name, texts, single, token⟩ called
      · split at failed
        · obtain ⟨fault, -, rfl⟩ := exists_of_mapError_error failed
          rfl
        · cases failed
          rfl
    · cases failed
      rfl
termination_by text.toList.length

theorem Call.isAt_of_ofTexts {position : Nat} {name : String} {texts : List String}
    {e : QueryError} (failed : ofTexts position name texts = .error e) : e.IsAt (· = position) :=
  isAt_of_arguments (fun _ _ _ => Argument.isAt_of_ofText) failed

namespace Statement

section

variable (P : Nat → Prop)

/-- Whether the places where a condition and the parentheses around it begin are of some kind. -/
structure TestHead.IsAt (head : TestHead) : Prop where
  start : P head.start
  parens : ∀ position ∈ head.parens, P position

def Comparison.IsAt : Comparison → Prop
  | .keys head _ _ => P head.start
  | .test head _ => head.IsAt P

/-- Whether the positions that a reader keeps for what it has begun to read are of some kind. -/
def Awaiting.IsAt : Awaiting → Prop
  | .joinWord head _ | .right head | .afterRight head | .joinAlias head | .on head _
  | .leftKey head _ | .rightKey head _ _ _ => P head.start
  | .afterOrderKey start _ => P start
  | .condition _ parens | .afterCondition parens => ∀ position ∈ parens, P position
  | .operator c | .afterIs c => c.IsAt P
  | .afterNot c start => P start ∧ c.IsAt P
  | .operand head _ _ | .list head _ _ | .listStart head _ _ | .listItem head _ _ _
  | .afterListItem head _ _ _ => head.IsAt P
  | _ => True

structure Place.IsAt (p : Place) : Prop where
  around : ∀ a ∈ p.around, P a.head.start
  awaiting : p.awaiting.IsAt P

/-- Whether all that a lexeme leads to stands at positions of some kind: the steps, what is kept for
later and what is wrong. The calls that are selected are of some kind, too. -/
structure Move.IsWithin (Q : Call → Prop) (m : Move) : Prop where
  steps : ∀ s ∈ m.steps, P s.position ∧ s.step.Selects Q
  next : ∀ p, m.next = .ok p → p.IsAt P
  error : ∀ e, m.next = .error e → e.IsAt P

end

variable {P : Nat → Prop} {Q : Call → Prop}

theorem isWithin_fail {e : QueryError} (told : e.IsAt P) : (fail e).IsWithin P Q :=
  ⟨List.forall_mem_nil _, nofun, fun _ same => Except.error.inj same ▸ told⟩

theorem isAt_unexpected {l : Lexeme} (here : P l.start) (expected : String) :
    (unexpected l expected).IsAt P := by
  unfold unexpected
  split <;> exact here

theorem isWithin_refuse {l : Lexeme} (here : P l.start) (expected : String) :
    (refuse l expected).IsWithin P Q :=
  isWithin_fail (isAt_unexpected here expected)

theorem isAt_behindOperator {c : Comparison} (kept : c.IsAt P) (operator : Operator) :
    (Place.behindOperator c operator).IsAt P := by
  cases c with
  | keys => exact kept
  | test => cases operator <;> exact kept

namespace Place

section

variable {p : Place} {l : Lexeme} (around : ∀ a ∈ p.around, P a.head.start)
include around

theorem isWithin_goOn {awaiting : Awaiting} (kept : awaiting.IsAt P) :
    (p.goOn awaiting).IsWithin P Q :=
  ⟨List.forall_mem_nil _, fun _ same => Except.ok.inj same ▸ ⟨around, kept⟩,
    fun _ same => nomatch same⟩

theorem isWithin_step {position : Nat} {s : Step} {awaiting : Awaiting} (stands : P position)
    (selects : s.Selects Q) (kept : awaiting.IsAt P) :
    (p.step position s awaiting).IsWithin P Q :=
  ⟨List.forall_mem_singleton.mpr ⟨stands, selects⟩,
    fun _ same => Except.ok.inj same ▸ ⟨around, kept⟩, fun _ same => nomatch same⟩

section

variable (here : P l.start)
include here

theorem isWithin_begin (keyword : Keyword) (c : Clause) :
    (p.begin l keyword c).IsWithin P Q := by
  cases c with
  | join =>
    simp only [begin]
    split <;> exact isWithin_goOn around here
  | filter => exact isWithin_step around here trivial (List.forall_mem_nil _)
  | having => exact isWithin_step around here trivial (List.forall_mem_nil _)
  | _ =>
    apply isWithin_goOn around
    exact trivial

theorem isWithin_meetClause (keyword : Keyword) (c : Clause) :
    (p.meetClause l keyword c).IsWithin P Q := by
  unfold meetClause
  split
  · exact isWithin_fail here
  dsimp only
  have begun : (begin { p with clauses := c :: p.clauses } l keyword c).IsWithin P Q :=
    isWithin_begin (p := { p with clauses := c :: p.clauses }) around here keyword c
  split
  · exact begun
  split
  · exact isWithin_fail here
  · exact begun

theorem isWithin_atClause : (p.atClause l).IsWithin P Q := by
  unfold atClause
  split
  · split
    · exact isWithin_meetClause around here _ _
    · exact isWithin_refuse here _
  · rename_i outer rest _ nested
    rw [nested] at around
    obtain ⟨first, later⟩ := List.forall_mem_cons.mp around
    exact ⟨List.forall_mem_nil _, fun _ same => Except.ok.inj same ▸ ⟨later, first⟩,
      fun _ same => nomatch same⟩
  · exact isWithin_refuse here _

theorem isWithin_atComma {awaiting : Awaiting} (kept : awaiting.IsAt P) :
    (p.atComma l awaiting).IsWithin P Q := by
  unfold atComma
  split
  · exact isWithin_goOn around kept
  · exact isWithin_atClause around here

theorem isWithin_atItem (call : ∀ name texts, l.token = .call name texts → ∀ c,
      Call.ofTexts l.start name texts = .ok c → Q c) : (p.atItem l).IsWithin P Q := by
  unfold atItem
  split
  · exact isWithin_step around here trivial trivial
  · exact isWithin_step around here trivial trivial
  · rename_i name texts token
    split
    · rename_i c read
      exact isWithin_step around here (call name texts token c read) trivial
    · rename_i e failed
      have told := Call.isAt_of_ofTexts failed
      cases e with
      | parse position fault =>
        have same : position = l.start := told
        exact isWithin_fail (same ▸ here : P position)
      | unknownFunction => exact isWithin_fail trivial
      | _ => exact told.elim
  · exact isWithin_refuse here _

theorem isWithin_atSource : (p.atSource l).IsWithin P Q := by
  unfold atSource
  split
  · exact isWithin_step around here trivial trivial
  · exact isWithin_step around here trivial trivial
  · exact isWithin_step around here trivial trivial
  · exact isWithin_step around here trivial trivial
  · split
    · exact isWithin_step around here trivial trivial
    · exact isWithin_refuse here _
  · exact isWithin_refuse here _

theorem isWithin_atOperator {c : Comparison} (kept : c.IsAt P) :
    (p.atOperator l c).IsWithin P Q := by
  unfold atOperator
  split
  · exact isWithin_goOn around kept
  · exact isWithin_goOn around ⟨here, kept⟩
  · split
    · exact isWithin_goOn around (isAt_behindOperator kept _)
    · exact isWithin_refuse here _

theorem isWithin_atRightKey {head : JoinHead} (kept : P head.start) (aliasName : Option String)
    (left : String) (operator : Operator) :
    (p.atRightKey l head aliasName left operator).IsWithin P Q := by
  unfold atRightKey
  split
  · exact isWithin_step around kept trivial trivial
  · exact isWithin_refuse here _

section

variable {head : TestHead} {field : String} {operator : Operator} (kept : head.IsAt P)
include kept

omit here in
theorem isWithin_test (operand : Value) :
    (p.test head field operator operand).IsWithin P Q := by
  unfold test
  split
  · exact isWithin_step around kept.start trivial kept.parens
  · exact isWithin_fail kept.start

theorem isWithin_atOperand : (p.atOperand l head field operator).IsWithin P Q := by
  unfold atOperand
  split
  · exact isWithin_test around kept _
  · exact isWithin_refuse here _

theorem isWithin_atListItem (items : List Value) :
    (p.atListItem l head field operator items).IsWithin P Q := by
  unfold atListItem
  split
  · exact isWithin_goOn around kept
  · exact isWithin_refuse here _

end

theorem isWithin_atCondition {parens : List Nat} (kept : ∀ position ∈ parens, P position)
    (connective : Connective) : (p.atCondition l connective parens).IsWithin P Q := by
  unfold atCondition
  split
  · exact isWithin_step around here trivial (List.forall_mem_cons.mpr ⟨here, kept⟩)
  · exact isWithin_goOn around ⟨here, kept⟩
  · exact isWithin_refuse here _

theorem isWithin_afterCondition {parens : List Nat} (kept : ∀ position ∈ parens, P position) :
    (p.afterCondition l parens).IsWithin P Q := by
  unfold afterCondition
  split
  · exact isWithin_goOn around kept
  · exact isWithin_atClause around here
  · obtain ⟨first, later⟩ := List.forall_mem_cons.mp kept
    split
    · exact isWithin_step around first trivial later
    · exact isWithin_refuse here _

theorem isWithin_afterOrderKey {start : Nat} (kept : P start) (field : String) :
    (p.afterOrderKey l start field).IsWithin P Q := by
  unfold afterOrderKey
  split
  · exact isWithin_step around kept trivial trivial
  · have moved : (p.atComma l .orderKey).IsWithin P Q := isWithin_atComma around here trivial
    exact { moved with steps := List.forall_mem_cons.mpr ⟨⟨kept, trivial⟩, moved.steps⟩ }

end

end

/-- Whatever a lexeme leads to stands where the lexeme begins or where something begins that is
still being read. -/
theorem isWithin_meet {p : Place} {l : Lexeme} (kept : p.IsAt P) (here : P l.start)
    (call : ∀ name texts, l.token = .call name texts → ∀ c,
      Call.ofTexts l.start name texts = .ok c → Q c) : (p.meet l).IsWithin P Q := by
  obtain ⟨around, awaiting⟩ := kept
  have own {expected : Awaiting} (found : p.awaiting = expected) : expected.IsAt P :=
    found ▸ awaiting
  have meets := p.meets_meet l
  generalize p.meet l = m at meets ⊢
  cases meets with
  | clause | pastSource => exact isWithin_atClause around here
  | firstItem | item => exact isWithin_atItem around here call
  | afterItem | afterItemAlias | afterGroupKey | afterDirection =>
    exact isWithin_atComma around here trivial
  | distinct | itemAlias | groupKey => exact isWithin_step around here trivial trivial
  | asItem | inSource | groupBy | orderBy => exact isWithin_goOn around trivial
  | source => exact isWithin_atSource around here
  | orderKey => exact isWithin_goOn around here
  | afterOrderKey found => exact isWithin_afterOrderKey around here (own found) _
  | count =>
    refine isWithin_step around here ?_ trivial
    split <;> trivial
  | right found _ =>
    have begun := own found
    refine ⟨List.forall_mem_singleton.mpr ⟨begun, trivial⟩, fun _ same => ?_, nofun⟩
    rw [← Except.ok.inj same]
    exact ⟨List.forall_mem_cons.mpr ⟨begun, around⟩, trivial⟩
  | outer found _ | join found _ | asRight found _ | onKeys found _ | joinAlias found _
  | onAliased found _ | leftKey found _ | opensList found _ | afterListItem found _ =>
    have begun := own found
    exact isWithin_goOn around begun
  | rightKey found | isKey found => exact isWithin_atRightKey around here (own found) ..
  | operator found => exact isWithin_atOperator around here (own found)
  | isNot found _ => exact isWithin_goOn around (isAt_behindOperator (own found) _)
  | notIn found _ | notLike found _ =>
    exact isWithin_goOn around (isAt_behindOperator (own found).2 _)
  | condition found => exact isWithin_atCondition around here (own found) _
  | isOperand found | operand found => exact isWithin_atOperand around here (own found)
  | soleItem found _ | emptyList found _ | closesList found _ =>
    exact isWithin_test around (own found) _
  | firstListItem found | listItem found =>
    exact isWithin_atListItem around here (own found) _
  | afterCondition found => exact isWithin_afterCondition around here (own found)
  | notCount => exact isWithin_fail here
  | notAlone found => exact isWithin_fail (own found).1
  | refused => exact isWithin_refuse here _

theorem isAt_atEnd {p : Place} {stop : Nat} (last : P stop) {e : QueryError}
    (early : p.atEnd stop = some e) : e.IsAt P := by
  unfold atEnd at early
  split at early
  · cases early
  · cases early
    exact last

/-- The end of a text leads to steps at positions that have been kept, and what is missing is told
at the end. -/
theorem isAt_finish {p : Place} {stop : Nat} (kept : p.awaiting.IsAt P) (last : P stop) :
    (∀ s ∈ (p.finish stop).1, P s.position ∧ s.step.Selects Q) ∧
      ∀ e, (p.finish stop).2 = some e → e.IsAt P := by
  have finishes := p.finishes_finish stop
  generalize p.finish stop = outcome at finishes ⊢
  cases finishes with
  | afterOrderKey found =>
    rw [found] at kept
    exact ⟨List.forall_mem_singleton.mpr ⟨kept, trivial⟩, fun _ => isAt_atEnd last⟩
  | notAlone found =>
    rw [found] at kept
    exact ⟨List.forall_mem_nil _, fun _ same => Option.some.inj same ▸ kept.1⟩
  | early => exact ⟨List.forall_mem_nil _, fun _ same => Option.some.inj same ▸ last⟩
  | _ => exact ⟨List.forall_mem_nil _, fun _ => isAt_atEnd last⟩

/-- What holds of a whole text follows from what holds of each of its lexemes. -/
theorem isAt_follow {p : Place} {stop : Nat} {ls : List Lexeme} (kept : p.IsAt P) (last : P stop)
    (starts : ∀ l ∈ ls, P l.start)
    (calls : ∀ l ∈ ls, ∀ name texts, l.token = .call name texts → ∀ c,
      Call.ofTexts l.start name texts = .ok c → Q c) :
    (∀ s ∈ (p.follow stop ls).1, P s.position ∧ s.step.Selects Q) ∧
      ∀ e, (p.follow stop ls).2 = some e → e.IsAt P := by
  induction ls generalizing p with
  | nil => exact isAt_finish kept.awaiting last
  | cons l rest ih =>
    obtain ⟨here, later⟩ := List.forall_mem_cons.mp starts
    obtain ⟨call, others⟩ := List.forall_mem_cons.mp calls
    have moved : (p.meet l).IsWithin P Q := isWithin_meet kept here call
    rw [follow]
    split
    · rename_i steps e met
      rw [met] at moved
      exact ⟨moved.steps, fun _ same => moved.error _ (congrArg _ (Option.some.inj same))⟩
    · rename_i steps next met
      rw [met] at moved
      obtain ⟨behind, wrong⟩ := ih (moved.next next rfl) later others
      exact ⟨List.forall_mem_append.mpr ⟨moved.steps, behind⟩, wrong⟩

end Place

/-- Whether a position is one of a text: where one of its lexemes begins, or its end. -/
def IsPosition (text : String) (position : Nat) : Prop :=
  position ∈ (Lexeme.ofText text).map Lexeme.start ∨ position = text.utf8ByteSize

theorem isAt_stepsOf (text : String) :
    (∀ s ∈ (stepsOf text).1, IsPosition text s.position) ∧
      ∀ e, (stepsOf text).2 = some e → e.IsAt (IsPosition text) := by
  have start : Place.start.IsAt (IsPosition text) := ⟨List.forall_mem_nil _, trivial⟩
  have lexemes : ∀ l ∈ Lexeme.ofText text, IsPosition text l.start :=
    fun l member => .inl (List.mem_map_of_mem member)
  obtain ⟨steps, wrong⟩ := Place.isAt_follow (Q := fun _ => True) start (.inr rfl) lexemes
    fun _ _ _ _ _ _ _ => trivial
  exact ⟨fun s member => (steps s member).1, wrong⟩

/-- The calls that a text selects are those of its lexemes. -/
theorem selects_stepsOf {text : String}
    (calls : ∀ l ∈ Lexeme.ofText text, ∀ name texts, l.token = .call name texts → ∀ c,
      Call.ofTexts l.start name texts = .ok c → Q c) :
    ∀ s ∈ (stepsOf text).1, s.step.Selects Q := by
  have start : Place.start.IsAt fun _ => True := ⟨List.forall_mem_nil _, trivial⟩
  obtain ⟨steps, -⟩ := Place.isAt_follow start trivial (fun _ _ => trivial) calls
  exact fun s member => (steps s member).2

end Statement

/-- A step that is refused is told at its position. -/
theorem NestedDraft.isAt_takeAll {P : Nat → Prop} {n m : NestedDraft} {steps : List PlacedStep}
    {e : QueryError} (stand : ∀ s ∈ steps, P s.position) (takes : n.takeAll steps = (m, some e)) :
    e.IsAt P := by
  induction steps generalizing n with
  | nil => cases takes
  | cons s rest ih =>
    obtain ⟨first, later⟩ := List.forall_mem_cons.mp stand
    rw [takeAll] at takes
    split at takes
    · exact ih later takes
    · cases takes
      exact first

/-- A text is read to its end or fails for a function that there is none of, or with a parse error
at one of the positions of the text. No other error comes out, whatever draft it is read into. -/
theorem Draft.read_outcome (d : Draft) (text : String) :
    (d.read text).2 = none ∨ (∃ name, (d.read text).2 = some (.unknownFunction name)) ∨
      ∃ position fault, (d.read text).2 = some (.parse position fault) ∧
        (position ∈ (Lexeme.ofText text).map Lexeme.start ∨ position = text.utf8ByteSize) := by
  obtain ⟨stand, wrong⟩ := Statement.isAt_stepsOf text
  have told : ∀ e, (d.read text).2 = some e → e.IsAt (Statement.IsPosition text) := by
    intro e failed
    unfold read at failed
    rcases follows : Statement.stepsOf text with ⟨steps, early⟩
    rw [follows] at stand wrong failed
    dsimp only at failed
    split at failed
    · rename_i takes
      cases failed
      exact NestedDraft.isAt_takeAll stand takes
    · exact wrong e failed
  cases failed : (d.read text).2 with
  | none => exact .inl rfl
  | some e =>
    have stands := told e failed
    cases e with
    | unknownFunction name => exact .inr (.inl ⟨name, rfl⟩)
    | parse position fault => exact .inr (.inr ⟨position, fault, rfl, stands⟩)
    | _ => exact stands.elim

end RecordQuery
