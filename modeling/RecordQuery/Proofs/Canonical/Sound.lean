import RecordQuery.Proofs.Canonical.Plain
import RecordQuery.Proofs.Statement.Draft

namespace RecordQuery

open Token (IsWord)

/-- A word that is read as a path is read back from its notation. -/
theorem FieldPath.isWritten_of_forQuery {text : String} {p : FieldPath}
    (word : IsWord text.toList) (read : forQuery text = .ok p) : p.IsWritten := by
  obtain rfl := text_of_forQuery read
  exact ⟨word, read⟩

namespace Draft

variable {d d' : Draft} {text : String}

/-- A word of which the first part is read as a path is a single part. -/
theorem commaParts_of_forQuery (word : IsWord text.toList)
    (first : ∀ part rest, commaParts text = part :: rest → part ≠ "*" →
      ∃ p, FieldPath.forQuery part = .ok p) :
    ',' ∉ text.toList ∧ commaParts text = [text] := by
  by_cases comma : ',' ∈ text.toList
  · obtain ⟨part, rest, fault, refused, star, cut⟩ := exists_part word.path comma
    obtain ⟨p, parsed⟩ := first part rest cut star
    cases refused.symm.trans parsed
  · exact ⟨comma, commaParts_of_isPath word.path comma⟩

/-- A word that names fields is a single one if it is accepted. -/
theorem select_ok (word : IsWord text.toList) (accepted : (d.select text).fault = none) :
    ∃ p : FieldPath, p.StandsAlone ∧
      d.addField (.ofExpression (.path p)) = .ok (d.select text).draft := by
  unfold select at accepted ⊢
  obtain ⟨absent, single⟩ := commaParts_of_forQuery word fun part rest cut star => by
    rw [cut, selectParts, if_neg star] at accepted
    split at accepted
    · rename_i selected
      obtain ⟨p, parsed, -⟩ := exists_path selected
      exact ⟨p, parsed⟩
    · cases accepted
  rw [single, selectParts, if_neg word.path.ne_star] at accepted ⊢
  cases selected : d.selectPath text with
  | error fault =>
    rw [selected] at accepted
    cases accepted
  | ok next =>
    obtain ⟨p, parsed, added⟩ := exists_path selected
    have written := FieldPath.isWritten_of_forQuery word parsed
    obtain rfl := FieldPath.text_of_forQuery parsed
    exact ⟨p, ⟨written, absent⟩, added⟩

theorem addGroupBy_ok (word : IsWord text.toList) (accepted : (d.addGroupBy text).fault = none) :
    ∃ p : FieldPath, p.StandsAlone ∧ (d.addGroupBy text).draft = d.withGroupKey p := by
  unfold addGroupBy at accepted ⊢
  obtain ⟨absent, single⟩ := commaParts_of_forQuery word fun part rest cut _ => by
    rw [cut, groupByParts] at accepted
    split at accepted
    · rename_i grouped
      obtain ⟨p, parsed, -⟩ := exists_path grouped
      exact ⟨p, parsed⟩
    · cases accepted
  rw [single, groupByParts] at accepted ⊢
  cases grouped : d.groupByPath text with
  | error fault =>
    rw [grouped] at accepted
    cases accepted
  | ok next =>
    obtain ⟨p, parsed, added⟩ := exists_path grouped
    have written := FieldPath.isWritten_of_forQuery word parsed
    obtain rfl := FieldPath.text_of_forQuery parsed
    cases added
    exact ⟨p, ⟨written, absent⟩, rfl⟩

section

variable (sound : d.IsSound)
include sound

theorem IsSound.addField {e : Expression} (written : e.IsPlain → e.IsWritten)
    (added : d.addField (.ofExpression e) = .ok d') : d'.IsSound := by
  obtain ⟨fresh, rfl⟩ := addField_ok added
  refine { sound with fields := ?_, apart := ?_ }
  · intro f member
    rcases List.mem_append.mp member with earlier | last
    · exact sound.fields f earlier
    · rw [List.mem_singleton.mp last]
      exact ⟨written, fun _ => rfl⟩
  · refine List.pairwise_append.mpr ⟨sound.apart, List.pairwise_singleton _ _, ?_⟩
    intro g earlier f last
    rw [List.mem_singleton.mp last]
    exact ⟨fresh g earlier, fresh g earlier⟩

theorem IsSound.setAlias {name : String} (named : d.setAlias name = .ok d') : d'.IsSound := by
  obtain ⟨front, last, all, free, rfl⟩ := setAlias_ok named
  have fields := sound.fields
  have apart := sound.apart
  rw [all] at fields apart
  obtain ⟨before, -, precede⟩ := List.pairwise_append.mp apart
  refine { sound with fields := ?_, apart := ?_ }
  · intro f member
    rcases List.mem_append.mp member with earlier | same
    · exact fields f (List.mem_append_left _ earlier)
    · rw [List.mem_singleton.mp same]
      have whole := fields last (List.mem_append_right _ (List.mem_singleton_self _))
      exact ⟨whole.expression, nofun⟩
  · refine List.pairwise_append.mpr ⟨before, List.pairwise_singleton _ _, ?_⟩
    intro g earlier f same
    rw [List.mem_singleton.mp same]
    obtain ⟨first, second⟩ := precede g earlier last (List.mem_singleton_self _)
    refine ⟨first, fun equal => ?_⟩
    rcases free with own | other
    · exact second (equal.trans own.symm)
    · exact other g earlier equal

theorem IsSound.setSource (text : String) : (d.setSource text).IsSound := by
  refine { sound with locator := fun l member => ?_ }
  unfold Draft.setSource at member
  dsimp only at member
  split at member
  · cases member
  · rename_i other
    cases member
    exact Bool.eq_false_iff.mpr other

theorem IsSound.addTest {connective : Connective} {p : Predicate} (test : p.IsSound)
    (added : d.addTest connective p = .ok d') : d'.IsSound := by
  have conditions := sound.conditions.addTest test added
  obtain rfl := addTest_ok added
  exact sound.mapConditions conditions

theorem IsSound.closeGroup (closed : d.closeGroup = .ok d') : d'.IsSound := by
  have conditions := sound.conditions.closeGroup closed
  obtain ⟨c, -, rfl⟩ := closeGroup_ok closed
  exact sound.mapConditions conditions

theorem IsSound.addOrderBy {direction : Direction} (word : IsWord text.toList)
    (ordered : d.addOrderBy text direction = .ok d') : d'.IsSound := by
  unfold Draft.addOrderBy at ordered
  obtain ⟨p, parsed, ordered⟩ := exists_path ordered
  cases ordered
  refine { sound with orderBy := fun key member => ?_ }
  rcases List.mem_append.mp member with earlier | last
  · exact sound.orderBy key earlier
  · rw [List.mem_singleton.mp last]
    exact FieldPath.isWritten_of_forQuery word parsed

theorem IsSound.withGroupKey {p : FieldPath} (alone : p.StandsAlone) :
    (d.withGroupKey p).IsSound := by
  refine { sound with groupBy := fun key member => ?_ }
  rcases List.mem_append.mp member with earlier | last
  · exact sound.groupBy key earlier
  · rwa [List.mem_singleton.mp last]

/-- A sound draft makes a query that is read back from its canonical text as long as it is
plain. -/
theorem IsSound.build {q : Query} (built : d.build = .ok q) : q.IsSound := by
  intro plain
  obtain ⟨plain, aliases, rights⟩ := plain
  obtain ⟨_, _, filter, having, rfl⟩ := exists_of_build built
  refine .mk ?_ (fun j member => ?_) fun j member => ?_
  · exact {
      fields := fun f member => by
        have field := sound.fields f member
        have own := plain.fields f member
        exact ⟨field.expression own.expression, own.word, field.own⟩
      apart := sound.apart
      locator := fun l member => by
        have own := plain.locator l member
        exact ⟨own.word, own.read, sound.locator l member⟩
      filter := (sound.conditions .filter).tree filter plain.filter
      having := (sound.conditions .having).tree having plain.having
      groupBy := sound.groupBy
      orderBy := sound.orderBy
      limit := sound.limit
      offset := sound.offset
      settings := sound.settings }
  · have join := sound.joins j member
    exact ⟨aliases j member, join.leftKey, join.rightKey⟩
  · exact (sound.joins j member).right (rights j member)

theorem IsSound.join {kind : JoinKind} {right : Draft} {aliasName : Option String}
    (inside : right.IsSound) (joined : d.join kind right aliasName = .ok d') : d'.IsSound := by
  obtain ⟨q, pending, built, same, rfl⟩ := join_ok joined
  refine { sound with pending := fun p member => ?_ }
  obtain rfl : pending = p := Option.some.inj member
  rw [same]
  exact inside.build built

theorem IsSound.on {left right : String} {operator : Operator} (leftWord : IsWord left.toList)
    (rightWord : IsWord right.toList) (accepted : (d.on left operator right).fault = none) :
    (d.on left operator right).draft.IsSound := by
  obtain ⟨pending, leftKey, rightKey, waiting, leftRead, rightRead, draft⟩ := on_ok accepted
  rw [draft]
  refine { sound with joins := fun j member => ?_, pending := fun _ later => by cases later }
  rcases List.mem_append.mp member with earlier | last
  · exact sound.joins j earlier
  · rw [List.mem_singleton.mp last]
    exact ⟨FieldPath.isWritten_of_forQuery leftWord leftRead,
      FieldPath.isWritten_of_forQuery rightWord rightRead, sound.pending pending waiting⟩

end

end Draft

/-- What holds of a step that a text leads to. -/
def Step.IsSound : Step → Prop
  | .select text | .groupBy text | .orderBy text _ => IsWord text.toList
  | .selectCall c => c.IsSound
  | .test _ p => p.IsSound
  | .join _ _ left _ right => IsWord left.toList ∧ IsWord right.toList
  | .limit n | .offset n => n ≤ Draft.countLimit
  | _ => True

namespace NestedDraft

/-- What holds of the drafts of a text. -/
structure IsSound (n : NestedDraft) : Prop where
  inner : n.inner.IsSound
  around : ∀ d ∈ n.around, d.IsSound

variable {n m : NestedDraft}

theorem IsSound.join (sound : n.IsSound) {kind : JoinKind} {aliasName : Option String}
    {left right : String} {operator : Operator} (leftWord : IsWord left.toList)
    (rightWord : IsWord right.toList)
    (takes : n.take (.join kind aliasName left operator right) = (m, none)) : m.IsSound := by
  unfold NestedDraft.take at takes
  cases nested : n.around with
  | nil =>
    simp only [nested] at takes
    cases takes
    exact sound
  | cons d around =>
    simp only [nested, Prod.mk.injEq] at takes
    obtain ⟨rfl, accepted⟩ := takes
    have outside := sound.around
    rw [nested] at outside
    obtain ⟨first, later⟩ := List.forall_mem_cons.mp outside
    cases joined : d.join kind n.inner aliasName with
    | error fault =>
      rw [joined] at accepted
      cases accepted
    | ok next =>
      rw [joined] at accepted
      exact ⟨(first.join sound.inner joined).on leftWord rightWord accepted, later⟩

/-- A sound step keeps drafts sound. -/
theorem IsSound.take (sound : n.IsSound) {s : Step} (step : s.IsSound)
    (takes : n.take s = (m, none)) : m.IsSound := by
  obtain ⟨inner, around⟩ := sound
  have tried {f : Draft → Except BuildFault Draft} (takes : n.tryInner f = (m, none))
      (keeps : ∀ d, f n.inner = .ok d → d.IsSound) : m.IsSound := by
    obtain ⟨d, done, rfl⟩ := tryInner_ok takes
    exact ⟨keeps d done, around⟩
  have run {f : Draft → Outcome} (takes : n.runInner f = (m, none))
      (keeps : (f n.inner).fault = none → (f n.inner).draft.IsSound) : m.IsSound := by
    obtain ⟨rfl, accepted⟩ := Prod.mk.inj takes
    exact ⟨keeps accepted, around⟩
  cases s with
  | select text =>
    refine run (f := fun d => d.select text) takes fun accepted => ?_
    obtain ⟨p, alone, added⟩ := Draft.select_ok step accepted
    exact inner.addField (e := .path p) (fun _ => alone) added
  | selectCall c =>
    exact tried (f := fun d => d.selectCall c) takes fun d added =>
      inner.addField (e := .call c) step added
  | setAlias name =>
    exact tried (f := fun d => d.setAlias name) takes fun d named => inner.setAlias named
  | openGroup connective =>
    cases takes
    exact ⟨inner.mapConditions (inner.conditions.openGroup connective), around⟩
  | closeGroup => exact tried (f := Draft.closeGroup) takes fun d closed => inner.closeGroup closed
  | test connective p =>
    exact tried (f := fun d => d.addTest connective p) takes fun d added =>
      inner.addTest step added
  | beginRight =>
    cases takes
    rw [inner.settings]
    exact ⟨Draft.isSound_empty, List.forall_mem_cons.mpr ⟨inner, around⟩⟩
  | join kind aliasName left operator right => exact join ⟨inner, around⟩ step.1 step.2 takes
  | groupBy text =>
    refine run (f := fun d => d.addGroupBy text) takes fun accepted => ?_
    obtain ⟨p, alone, same⟩ := Draft.addGroupBy_ok step accepted
    rw [same]
    exact inner.withGroupKey alone
  | orderBy text direction =>
    exact tried (f := fun d => d.addOrderBy text direction) takes fun d ordered =>
      inner.addOrderBy step ordered
  | selectAll =>
    cases takes
    exact ⟨{ inner with fields := nofun, apart := .nil }, around⟩
  | limit count =>
    cases takes
    exact ⟨{ inner with limit := fun k member => Option.some.inj member ▸ step }, around⟩
  | offset count =>
    cases takes
    exact ⟨{ inner with offset := fun k member => Option.some.inj member ▸ step }, around⟩
  | source text =>
    cases takes
    exact ⟨inner.setSource text, around⟩
  | distinct | clause =>
    cases takes
    exact ⟨{ inner with }, around⟩

/-- What sound steps keep when they are accepted. -/
def IsKept (P : NestedDraft → Prop) : Prop :=
  ∀ ⦃n m : NestedDraft⦄ ⦃s : Step⦄, P n → s.IsSound → n.take s = (m, none) → P m

theorem isKept_isSound : IsKept IsSound :=
  fun _ _ _ sound step takes => sound.take step takes

theorem IsKept.takeAll {P : NestedDraft → Prop} (kept : IsKept P) (holds : P n)
    {steps : List PlacedStep} (each : ∀ s ∈ steps, s.step.IsSound)
    (takes : n.takeAll steps = (m, none)) : P m :=
  of_takeAll_ok (fun s member _ _ before taken => kept before (each s member) taken) holds takes

end NestedDraft

end RecordQuery
