import RecordQuery.Proofs.Canonical.Sound

namespace RecordQuery

open Token (IsWord)
open Lexeme (AllApart)

/-- What holds of a lexeme that is no source. -/
structure Lexeme.IsSound (l : Lexeme) : Prop where
  word : ∀ text, l.token = .path text → IsWord text.toList
  call : ∀ name texts, l.token = .call name texts → ∀ c,
    Call.ofTexts l.start name texts = .ok c → c.IsSound

namespace Statement

def Comparison.IsSound : Comparison → Prop
  | .keys _ _ left => IsWord left.toList
  | .test _ field => IsWord field.toList

/-- What holds of the values of a list that is being read. -/
def AreSound (items : List Value) : Prop :=
  ∀ v ∈ items, v.IsPlain → v.IsLiteral

/-- What holds of what a reader has read and not yet made a step of. -/
def Awaiting.IsSound : Awaiting → Prop
  | .rightKey _ _ left _ => IsWord left.toList
  | .afterOrderKey _ field => IsWord field.toList
  | .operator c | .afterIs c | .afterNot c _ => c.IsSound
  | .operand _ field o => IsWord field.toList ∧ o.takesList = false
  | .list _ field o | .listStart _ field o => IsWord field.toList ∧ o.takesList = true
  | .listItem _ field o items | .afterListItem _ field o items =>
    (IsWord field.toList ∧ o.takesList = true) ∧ AreSound items
  | _ => True

/-- Whether a source is awaited, or lexemes are passed over that belong to one. -/
def Awaiting.isSource : Awaiting → Bool
  | .source => true
  | .pastSource _ => true
  | _ => false

/-- What holds of what a lexeme leads to. -/
structure Move.IsSound (m : Move) : Prop where
  steps : ∀ s ∈ m.steps, s.step.IsSound
  next : ∀ p, m.next = .ok p → p.awaiting.IsSound

theorem isSound_fail (e : QueryError) : (fail e).IsSound :=
  ⟨List.forall_mem_nil _, fun _ same => nomatch same⟩

theorem isSound_refuse (l : Lexeme) (expected : String) : (refuse l expected).IsSound :=
  isSound_fail _

namespace Place

variable {p next : Place} {l : Lexeme} {awaiting : Awaiting}

theorem isSound_goOn (sound : awaiting.IsSound) : (p.goOn awaiting).IsSound :=
  ⟨List.forall_mem_nil _, fun _ same => Except.ok.inj same ▸ sound⟩

theorem isSound_step {position : Nat} {s : Step} (step : s.IsSound) (sound : awaiting.IsSound) :
    (p.step position s awaiting).IsSound :=
  ⟨List.forall_mem_singleton.mpr step, fun _ same => Except.ok.inj same ▸ sound⟩

theorem isSound_begin (keyword : Keyword) (c : Clause) : (p.begin l keyword c).IsSound := by
  cases c with
  | join =>
    simp only [begin]
    split <;> exact isSound_goOn trivial
  | filter => exact isSound_step (s := .clause .filter) trivial trivial
  | having => exact isSound_step (s := .clause .having) trivial trivial
  | _ =>
    apply isSound_goOn
    exact trivial

theorem isSound_meetClause (keyword : Keyword) (c : Clause) :
    (p.meetClause l keyword c).IsSound := by
  unfold meetClause
  split
  · exact isSound_fail _
  dsimp only
  split
  · exact isSound_begin keyword c
  split
  · exact isSound_fail _
  · exact isSound_begin keyword c

theorem isSound_atClause (p : Place) (l : Lexeme) : (p.atClause l).IsSound := by
  unfold atClause
  split
  · split
    · exact isSound_meetClause _ _
    · exact isSound_refuse _ _
  · exact ⟨List.forall_mem_nil _, fun _ same => Except.ok.inj same ▸ trivial⟩
  · exact isSound_refuse _ _

theorem isSound_atComma (sound : awaiting.IsSound) : (p.atComma l awaiting).IsSound := by
  unfold atComma
  split
  · exact isSound_goOn sound
  · exact isSound_atClause p l

theorem isSound_atItem (lexeme : l.IsSound) : (p.atItem l).IsSound := by
  unfold atItem
  split
  · exact isSound_step trivial trivial
  · rename_i text token
    exact isSound_step (lexeme.word text token) trivial
  · rename_i name texts token
    split
    · rename_i c read
      exact isSound_step (lexeme.call name texts token c read) trivial
    · exact isSound_fail _
  · exact isSound_refuse _ _

theorem isSound_atSource : (p.atSource l).IsSound := by
  unfold atSource
  split
  · exact isSound_step trivial trivial
  · exact isSound_step trivial trivial
  · exact isSound_step trivial trivial
  · exact isSound_step trivial trivial
  · split
    · exact isSound_step trivial trivial
    · exact isSound_refuse _ _
  · exact isSound_refuse _ _

theorem isSound_behindOperator {c : Comparison} (sound : c.IsSound) (operator : Operator) :
    (behindOperator c operator).IsSound := by
  cases c with
  | keys => exact sound
  | test head field => cases operator <;> exact ⟨sound, rfl⟩

theorem isSound_atOperator {c : Comparison} (sound : c.IsSound) : (p.atOperator l c).IsSound := by
  unfold atOperator
  split
  · exact isSound_goOn sound
  · exact isSound_goOn sound
  · split
    · exact isSound_goOn (isSound_behindOperator sound _)
    · exact isSound_refuse _ _

theorem isSound_atRightKey (lexeme : l.IsSound) {left : String} (word : IsWord left.toList)
    (head : JoinHead) (aliasName : Option String) (operator : Operator) :
    (p.atRightKey l head aliasName left operator).IsSound := by
  unfold atRightKey
  split
  · rename_i text token
    exact isSound_step ⟨word, lexeme.word text token⟩ trivial
  · exact isSound_refuse _ _

section

variable {head : TestHead} {field : String} {operator : Operator} (word : IsWord field.toList)
include word

theorem isSound_test {operand : Value}
    (sound : ∀ path : FieldPath, path.IsWritten → Predicate.IsSound ⟨path, operator, operand⟩) :
    (p.test head field operator operand).IsSound := by
  unfold test
  split
  · rename_i path read
    exact isSound_step (sound path (FieldPath.isWritten_of_forQuery word read)) trivial
  · exact isSound_fail _

theorem isSound_testList (takes : operator.takesList = true) {items : List Value}
    (sound : AreSound items) : (p.test head field operator (.array items)).IsSound :=
  isSound_test word fun _ written plain =>
    ⟨written, fun _ => ⟨items, rfl, fun v member => sound v member (plain v member)⟩,
      fun other => absurd (takes.symm.trans other) nofun⟩

theorem isSound_atOperand (takes : operator.takesList = false) :
    (p.atOperand l head field operator).IsSound := by
  unfold atOperand
  split
  · rename_i v literal
    refine isSound_test word fun _ written plain => ⟨written, ?_, fun _ => ?_⟩
    · exact fun other => absurd (takes.symm.trans other) Bool.false_ne_true
    · cases v with
      | array items => exact isLiteral_of_literal? literal trivial
      | _ => exact isLiteral_of_literal? literal (plain _ (List.mem_singleton_self _))
  · exact isSound_refuse _ _

theorem isSound_atListItem (takes : operator.takesList = true) {items : List Value}
    (sound : AreSound items) : (p.atListItem l head field operator items).IsSound := by
  unfold atListItem
  split
  · rename_i v literal
    refine isSound_goOn ⟨⟨word, takes⟩, List.forall_mem_append.mpr ⟨sound, ?_⟩⟩
    exact List.forall_mem_singleton.mpr (isLiteral_of_literal? literal)
  · exact isSound_refuse _ _

end

theorem isSound_atCondition (lexeme : l.IsSound) (connective : Connective) (parens : List Nat) :
    (p.atCondition l connective parens).IsSound := by
  unfold atCondition
  split
  · exact isSound_step trivial trivial
  · rename_i text token
    exact isSound_goOn (lexeme.word text token)
  · exact isSound_refuse _ _

theorem isSound_afterCondition (parens : List Nat) : (p.afterCondition l parens).IsSound := by
  unfold afterCondition
  split
  · exact isSound_goOn trivial
  · exact isSound_atClause p l
  · split
    · exact isSound_step trivial trivial
    · exact isSound_refuse _ _

theorem isSound_afterOrderKey {start : Nat} {field : String} (word : IsWord field.toList) :
    (p.afterOrderKey l start field).IsSound := by
  unfold afterOrderKey
  split
  · exact isSound_step word trivial
  · obtain ⟨steps, next⟩ : (p.atComma l .orderKey).IsSound := isSound_atComma trivial
    exact ⟨List.forall_mem_cons.mpr ⟨word, steps⟩, next⟩

theorem le_of_count? {text : String} {n : Nat} (count : count? text = some n) :
    n ≤ Draft.countLimit := by
  unfold count? at count
  dsimp only at count
  split at count
  · rename_i counts
    cases count
    exact of_decide_eq_true (Bool.and_eq_true_iff.mp counts).2
  · cases count

/-- Whatever a reader has read, a sound lexeme leads on to sound steps and to what is sound. -/
theorem isSound_meet (sound : p.awaiting.IsSound)
    (lexeme : p.awaiting.isSource = false → l.IsSound) : (p.meet l).IsSound := by
  have kept {awaiting : Awaiting} (found : p.awaiting = awaiting) : awaiting.IsSound :=
    found ▸ sound
  have own {awaiting : Awaiting} (found : p.awaiting = awaiting)
      (outside : awaiting.isSource = false) : l.IsSound :=
    lexeme (found ▸ outside)
  have meets := p.meets_meet l
  generalize p.meet l = m at meets ⊢
  cases meets with
  | clause | pastSource => exact isSound_atClause p l
  | firstItem found | item found => exact isSound_atItem (own found rfl)
  | afterItem | afterItemAlias | afterGroupKey | afterDirection => exact isSound_atComma trivial
  | distinct => exact isSound_step (s := .distinct) trivial trivial
  | itemAlias => exact isSound_step trivial trivial
  | groupKey found token => exact isSound_step ((own found rfl).word _ token) trivial
  | leftKey found token | orderKey found token =>
    exact isSound_goOn ((own found rfl).word _ token)
  | source => exact isSound_atSource
  | afterOrderKey found => exact isSound_afterOrderKey (kept found)
  | count _ _ counts =>
    refine isSound_step ?_ trivial
    split <;> exact le_of_count? counts
  | right => exact ⟨List.forall_mem_singleton.mpr trivial, fun _ same =>
      Except.ok.inj same ▸ trivial⟩
  | asItem | inSource | outer | join | asRight | onKeys | joinAlias | onAliased | groupBy
  | orderBy => exact isSound_goOn trivial
  | rightKey found | isKey found => exact isSound_atRightKey (own found rfl) (kept found) ..
  | operator found => exact isSound_atOperator (kept found)
  | isNot found _ | notIn found _ | notLike found _ =>
    exact isSound_goOn (isSound_behindOperator (kept found) _)
  | condition found => exact isSound_atCondition (own found rfl) ..
  | isOperand found => exact isSound_atOperand (kept found) rfl
  | operand found => exact isSound_atOperand (kept found).1 (kept found).2
  | opensList found _ | afterListItem found _ =>
    have read := kept found
    exact isSound_goOn read
  | soleItem found literal =>
    exact isSound_testList (kept found).1 (kept found).2
      (List.forall_mem_singleton.mpr (isLiteral_of_literal? literal))
  | emptyList found _ =>
    exact isSound_testList (kept found).1 (kept found).2 (List.forall_mem_nil _)
  | firstListItem found =>
    exact isSound_atListItem (kept found).1 (kept found).2 (List.forall_mem_nil _)
  | listItem found => exact isSound_atListItem (kept found).1.1 (kept found).1.2 (kept found).2
  | closesList found _ => exact isSound_testList (kept found).1.1 (kept found).1.2 (kept found).2
  | afterCondition => exact isSound_afterCondition _
  | notCount | notAlone => exact isSound_fail _
  | refused => exact isSound_refuse _ _

/-- What can be nothing but a source is refused where no source is. -/
theorem meet_foreign (foreign : l.token.isForeign = true)
    (outside : p.awaiting.isSource = false) : (p.meet l).next ≠ .ok next := by
  obtain ⟨clauses, around, awaiting⟩ := p
  obtain ⟨start, stop, token, behind⟩ := l
  cases token <;> cases foreign
  all_goals
    cases awaiting with
    | source | pastSource => cases outside
    | joinWord head outer => cases outer <;> exact nofun
    | afterIs c => cases c <;> exact nofun
    | afterCondition parens => cases parens <;> exact nofun
    | _ => exact nofun

theorem isSource_test {head : TestHead} {field : String} {operator : Operator} {operand : Value}
    (goes : (p.test head field operator operand).next = .ok next) :
    next.awaiting.isSource = false := by
  unfold test at goes
  split at goes
  · cases goes
    rfl
  · cases goes

/-- A path does not lead to a source. -/
theorem isSource_of_path {text : String} (token : l.token = .path text)
    (outside : p.awaiting.isSource = false) (goes : (p.meet l).next = .ok next) :
    next.awaiting.isSource = false := by
  obtain ⟨clauses, around, awaiting⟩ := p
  obtain ⟨start, stop, _, behind⟩ := l
  cases token
  cases awaiting with
  | source | pastSource => cases outside
  | joinWord head outer => cases outer <;> cases goes
  | afterCondition parens => cases parens <;> cases goes
  | operand | list => exact isSource_test goes
  | afterIs c =>
    cases c with
    | keys =>
      cases goes
      rfl
    | test => exact isSource_test goes
  | _ => cases goes <;> rfl

theorem isSound_finish (sound : p.awaiting.IsSound) (stop : Nat) :
    ∀ s ∈ (p.finish stop).1, s.step.IsSound := by
  have finishes := p.finishes_finish stop
  generalize p.finish stop = outcome at finishes ⊢
  cases finishes with
  | afterOrderKey found =>
    rw [found] at sound
    exact List.forall_mem_singleton.mpr sound
  | _ => exact List.forall_mem_nil _

end Place

namespace Reader

variable {r r' : Reader} {l : Lexeme} {ls : List Lexeme} {n : NestedDraft}

/-- A path that is no source is a word. One that reads like a keyword has something behind it that
is refused. -/
theorem isWord_of_endsIn (apart : AllApart (l :: ls)) (outside : r.place.awaiting.isSource = false)
    (reads : r.read l = some r') (ends : r'.EndsIn ls n) {text : String}
    (token : l.token = .path text) : IsWord text.toList := by
  obtain _ | ⟨first, -⟩ := apart
  obtain ⟨isPath, plain | ⟨m, later, rfl, foreign⟩⟩ := first text token
  · exact ⟨isPath, by rwa [String.ofList_toList]⟩
  · have behind := Place.isSource_of_path token outside (move_some reads).1
    obtain ⟨last, next, -⟩ := ends.cons
    exact absurd (move_some next).1 (Place.meet_foreign foreign behind)

/-- What holds of a reader of a text: what it awaits is sound, and its drafts have a property that
sound steps keep. -/
structure IsSound (P : NestedDraft → Prop) (r : Reader) : Prop where
  awaiting : r.place.awaiting.IsSound
  draft : P r.draft

variable {P : NestedDraft → Prop} (kept : NestedDraft.IsKept P)
include kept

theorem IsSound.read (sound : r.IsSound P)
    (lexeme : r.place.awaiting.isSource = false → l.IsSound) (reads : r.read l = some r') :
    r'.IsSound P := by
  obtain ⟨goes, takes⟩ := move_some reads
  have move := Place.isSound_meet sound.awaiting lexeme
  exact ⟨move.next _ goes, kept.takeAll sound.draft move.steps takes⟩

theorem IsSound.finish (sound : r.IsSound P) {stop : Nat} (finishes : r.finish stop = some n) :
    P n := by
  unfold Reader.finish at finishes
  split at finishes
  · rename_i steps ends
    split at finishes
    · rename_i takes
      cases finishes
      have last := Place.isSound_finish sound.awaiting stop
      rw [ends] at last
      exact kept.takeAll sound.draft last takes
    · cases finishes
  · cases finishes

/-- A sound reader that reads lexemes of a text to their end is led to drafts with the property. -/
theorem IsSound.endsIn {whole : String} (sound : r.IsSound P) (apart : AllApart ls)
    (members : ∀ l ∈ ls, l ∈ Lexeme.ofText whole) (ends : r.EndsIn ls n) : P n := by
  induction ls generalizing r with
  | nil =>
    obtain ⟨last, stop, reads, finishes⟩ := ends
    cases reads
    exact sound.finish kept finishes
  | cons l rest ih =>
    obtain ⟨next, reads, later⟩ := ends.cons
    obtain ⟨first, others⟩ := List.forall_mem_cons.mp members
    have apartLater : AllApart rest := by
      obtain _ | ⟨-, more⟩ := apart
      exact more
    refine ih (sound.read kept (fun outside => ?_) reads) apartLater others later
    exact {
      word := fun text token => isWord_of_endsIn apart outside reads later token
      call := fun name texts token c read plain =>
        Call.isWritten_of_ofTexts first token read plain }

end Reader

end Statement

/-- What holds of an empty draft and is kept by sound steps holds of the drafts that an accepted
text leads to. -/
theorem NestedDraft.IsKept.exists_of_ofText {P : NestedDraft → Prop} (kept : IsKept P)
    {settings : QuerySettings} {text : String} {q : Query}
    (accepted : Query.ofText settings text = .ok q) (start : P (.ofDraft (.empty settings))) :
    ∃ n, P n ∧ n.outermost.build = .ok q := by
  obtain ⟨n, ends, built⟩ := Statement.Reader.exists_of_ofText accepted
  have sound : (Statement.Reader.start settings).IsSound P := ⟨trivial, start⟩
  exact ⟨n, sound.endsIn kept (Lexeme.allApart_ofText text) (fun l member => member) ends, built⟩

/-- What a text is read as is read back from its canonical text as long as it is plain. -/
theorem Query.isWritten_of_ofText {text : String} {q : Query}
    (accepted : ofText .default text = .ok q) (plain : q.IsPlain) : q.IsWritten := by
  obtain ⟨n, sound, built⟩ := NestedDraft.isKept_isSound.exists_of_ofText accepted
    ⟨Draft.isSound_empty, List.forall_mem_nil _⟩
  exact (NestedDraft.outermost_of_forall sound.inner sound.around).build built plain

end RecordQuery
