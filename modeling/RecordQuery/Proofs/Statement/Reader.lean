import RecordQuery.Proofs.Except
import RecordQuery.Statement

namespace RecordQuery

/-- A step that is not refused has made the draft that stands behind it. -/
theorem Outcome.exists_of_ofExcept {d : Draft} {done : Except BuildFault Draft}
    (accepted : (ofExcept d done).fault = none) :
    ∃ next, done = .ok next ∧ (ofExcept d done).draft = next := by
  cases done with
  | error fault => cases accepted
  | ok next => exact ⟨next, rfl, rfl⟩

/-- A test that is accepted has been added to the conditions that are being written. -/
theorem Draft.addTest_ok {d d' : Draft} {connective : Connective} {p : Predicate}
    (added : d.addTest connective p = .ok d') :
    d' = d.mapConditions fun c => c.add connective (.test p) := by
  obtain ⟨_, -, added⟩ := exists_of_bind_ok added
  exact (Except.ok.inj added).symm

namespace NestedDraft

theorem takeAll_append (n : NestedDraft) (xs ys : List PlacedStep) :
    n.takeAll (xs ++ ys) =
      match n.takeAll xs with
      | (m, none) => m.takeAll ys
      | (m, some e) => (m, some e) := by
  induction xs generalizing n with
  | nil => rfl
  | cons s rest ih =>
    rw [List.cons_append, takeAll, takeAll]
    obtain ⟨next, fault⟩ := n.take s.step
    cases fault with
    | none => exact ih next
    | some fault => rfl

theorem takeAll_singleton {n m : NestedDraft} {s : PlacedStep}
    (takes : n.takeAll [s] = (m, none)) : n.take s.step = (m, none) := by
  rw [takeAll] at takes
  split at takes
  · rename_i taken
    simp only [takeAll, Prod.mk.injEq, and_true] at takes
    rw [taken, takes]
  · cases takes

/-- What every one of the steps keeps when it is accepted, all of them keep. -/
theorem of_takeAll_ok {P : NestedDraft → Prop} {n m : NestedDraft} {steps : List PlacedStep}
    (each : ∀ s ∈ steps, ∀ {n m : NestedDraft}, P n → n.take s.step = (m, none) → P m)
    (holds : P n) (takes : n.takeAll steps = (m, none)) : P m := by
  induction steps generalizing n with
  | nil =>
    cases takes
    exact holds
  | cons s rest ih =>
    obtain ⟨first, later⟩ := List.forall_mem_cons.mp each
    rw [takeAll] at takes
    split at takes
    · rename_i taken
      exact ih later (first holds taken) takes
    · cases takes

theorem tryInner_ok {n m : NestedDraft} {f : Draft → Except BuildFault Draft}
    (takes : n.tryInner f = (m, none)) :
    ∃ d, f n.inner = .ok d ∧ m = { n with inner := d } := by
  obtain ⟨same, accepted⟩ := Prod.mk.inj takes
  obtain ⟨d, tried, draft⟩ := Outcome.exists_of_ofExcept accepted
  rw [draft] at same
  exact ⟨d, tried, same.symm⟩

/-- What holds of all drafts holds of the outermost one. -/
theorem outermost_of_forall {P : Draft → Prop} {n : NestedDraft} (inner : P n.inner)
    (around : ∀ d ∈ n.around, P d) : P n.outermost := by
  unfold outermost
  cases last : n.around.getLast? with
  | none => exact inner
  | some d => exact around d (List.mem_of_getLast? last)

end NestedDraft

namespace Statement

namespace Place

theorem begin_await (p : Place) (awaiting : Awaiting) (l : Lexeme) (keyword : Keyword)
    (c : Clause) : (p.await awaiting).begin l keyword c = p.begin l keyword c := by
  cases c with
  | join =>
    simp only [begin]
    split <;> rfl
  | _ => rfl

/-- Which clause comes next does not depend on what has been awaited. -/
theorem atClause_await (p : Place) (awaiting : Awaiting) (l : Lexeme) :
    (p.await awaiting).atClause l = p.atClause l := by
  have begins (keyword : Keyword) (c : Clause) :
      begin ⟨c :: p.clauses, p.around, awaiting⟩ l keyword c =
        begin ⟨c :: p.clauses, p.around, p.awaiting⟩ l keyword c :=
    begin_await ⟨c :: p.clauses, p.around, p.awaiting⟩ awaiting l keyword c
  unfold atClause meetClause
  simp only [await, begins]

end Place

/-- A place in a statement with the drafts that what stands before it has led to. -/
structure Reader where
  place : Place
  draft : NestedDraft

namespace Reader

def start (settings : QuerySettings) : Reader :=
  ⟨.start, .ofDraft (.empty settings)⟩

/-- Goes on without a step. -/
def await (r : Reader) (awaiting : Awaiting) : Reader :=
  { r with place := r.place.await awaiting }

/-- Takes the steps of a move. There is no reader behind a move that is refused. -/
def move (r : Reader) (m : Move) : Option Reader :=
  match m.next, r.draft.takeAll m.steps with
  | .ok place, (draft, none) => some ⟨place, draft⟩
  | _, _ => none

/-- Reads a lexeme. -/
def read (r : Reader) (l : Lexeme) : Option Reader :=
  r.move (r.place.meet l)

def readAll (r : Reader) : List Lexeme → Option Reader
  | [] => some r
  | l :: rest => (r.read l).bind fun next => next.readAll rest

/-- The drafts at the end of the text, unless that comes too early. -/
def finish (r : Reader) (stop : Nat) : Option NestedDraft :=
  match r.place.finish stop with
  | (steps, none) =>
    match r.draft.takeAll steps with
    | (draft, none) => some draft
    | (_, some _) => none
  | (_, some _) => none

/-- Lexemes lead to the end of a text, with these drafts there. -/
def EndsIn (r : Reader) (rest : List Lexeme) (n : NestedDraft) : Prop :=
  ∃ r' stop, r.readAll rest = some r' ∧ r'.finish stop = some n

theorem readAll_append (r : Reader) (ls ms : List Lexeme) :
    r.readAll (ls ++ ms) = (r.readAll ls).bind fun next => next.readAll ms := by
  induction ls generalizing r with
  | nil => rfl
  | cons l rest ih =>
    rw [List.cons_append, readAll, readAll, Option.bind_assoc]
    exact congrArg _ (funext ih)

section

variable {r r' : Reader} {l : Lexeme} {ls ms : List Lexeme}

theorem readAll_cons (reads : r.readAll (l :: ls) = some r') :
    ∃ next, r.read l = some next ∧ next.readAll ls = some r' :=
  Option.bind_eq_some_iff.mp reads

theorem readAll_split (reads : r.readAll (ls ++ ms) = some r') :
    ∃ next, r.readAll ls = some next ∧ next.readAll ms = some r' := by
  rw [readAll_append] at reads
  exact Option.bind_eq_some_iff.mp reads

theorem readAll_singleton (reads : r.readAll [l] = some r') : r.read l = some r' := by
  obtain ⟨next, read, done⟩ := readAll_cons reads
  rw [read, ← done]
  rfl

variable {rest : List Lexeme} {n : NestedDraft}

theorem EndsIn.of_read (reads : r.read l = some r') (ends : r'.EndsIn rest n) :
    r.EndsIn (l :: rest) n := by
  obtain ⟨last, stop, later, finishes⟩ := ends
  refine ⟨last, stop, ?_, finishes⟩
  rw [readAll, reads]
  exact later

theorem EndsIn.cons (ends : r.EndsIn (l :: rest) n) :
    ∃ next, r.read l = some next ∧ next.EndsIn rest n := by
  obtain ⟨last, stop, reads, finishes⟩ := ends
  obtain ⟨next, first, reads⟩ := readAll_cons reads
  exact ⟨next, first, last, stop, reads, finishes⟩

theorem EndsIn.split (ends : r.EndsIn (ls ++ rest) n) :
    ∃ next, r.readAll ls = some next ∧ next.EndsIn rest n := by
  obtain ⟨last, stop, reads, finishes⟩ := ends
  obtain ⟨next, first, reads⟩ := readAll_split reads
  exact ⟨next, first, last, stop, reads, finishes⟩

theorem EndsIn.nil (ends : r.EndsIn [] n) : ∃ stop, (r.place.finish stop).2 = none := by
  obtain ⟨last, stop, reads, finishes⟩ := ends
  cases reads
  refine ⟨stop, ?_⟩
  unfold finish at finishes
  split at finishes
  · rename_i done
    rw [done]
  · cases finishes

/-- A text that may not end yet goes on. -/
theorem EndsIn.exists_cons (ends : r.EndsIn rest n)
    (unfinished : ∀ stop, (r.place.finish stop).2.isSome) :
    ∃ l later next, rest = l :: later ∧ r.read l = some next ∧ next.EndsIn later n := by
  cases rest with
  | nil =>
    obtain ⟨stop, done⟩ := ends.nil
    have goes := unfinished stop
    rw [done] at goes
    cases goes
  | cons l later =>
    obtain ⟨next, read, ends⟩ := ends.cons
    exact ⟨l, later, next, rfl, read, ends⟩

end

theorem move_some {r r' : Reader} {m : Move} (moves : r.move m = some r') :
    m.next = .ok r'.place ∧ r.draft.takeAll m.steps = (r'.draft, none) := by
  unfold move at moves
  split at moves
  · rename_i next steps
    cases moves
    exact ⟨next, steps⟩
  · cases moves

/-- A text that is followed and whose steps are taken is read to its end. -/
theorem endsIn_of_follow {p : Place} {stop : Nat} {ls : List Lexeme} {n m : NestedDraft}
    {steps : List PlacedStep} (follows : p.follow stop ls = (steps, none))
    (takes : n.takeAll steps = (m, none)) : EndsIn ⟨p, n⟩ ls m := by
  induction ls generalizing p n steps with
  | nil =>
    refine ⟨⟨p, n⟩, stop, rfl, ?_⟩
    rw [Place.follow] at follows
    simp only [finish, follows, takes]
  | cons l rest ih =>
    rw [Place.follow] at follows
    split at follows
    · cases follows
    · rename_i first next met
      rcases after : next.follow stop rest with ⟨later, e⟩
      simp only [after, Prod.mk.injEq] at follows
      obtain ⟨rfl, rfl⟩ := follows
      rw [NestedDraft.takeAll_append] at takes
      split at takes
      · rename_i k taken
        refine .of_read ?_ (ih after takes)
        rw [read, move, met]
        simp only [taken]
      · cases takes

/-- A text that is read to its end is followed, and its steps are taken. -/
theorem exists_steps_of_readAll {r r' : Reader} {stop : Nat} {ls : List Lexeme} {n : NestedDraft}
    (reads : r.readAll ls = some r') (finishes : r'.finish stop = some n) :
    ∃ steps, r.place.follow stop ls = (steps, none) ∧ r.draft.takeAll steps = (n, none) := by
  induction ls generalizing r with
  | nil =>
    cases reads
    unfold finish at finishes
    split at finishes
    · rename_i steps ends
      split at finishes
      · rename_i takes
        cases finishes
        exact ⟨steps, ends, takes⟩
      · cases finishes
    · cases finishes
  | cons l rest ih =>
    obtain ⟨next, read, later⟩ := readAll_cons reads
    obtain ⟨steps, follows, takes⟩ := ih later
    obtain ⟨met, first⟩ := move_some read
    rcases same : r.place.meet l with ⟨before, place⟩
    rw [same] at met first
    obtain rfl : place = .ok next.place := met
    refine ⟨before ++ steps, ?_, ?_⟩
    · rw [Place.follow, same]
      simp only [follows]
    · rw [NestedDraft.takeAll_append, first]
      exact takes

theorem exists_of_ofText {settings : QuerySettings} {text : String} {q : Query}
    (accepted : Query.ofText settings text = .ok q) :
    ∃ n, (start settings).EndsIn (Lexeme.ofText text) n ∧ n.outermost.build = .ok q := by
  unfold Query.ofText Draft.read at accepted
  rcases follows : stepsOf text with ⟨steps, e⟩
  rcases takes : (NestedDraft.ofDraft (.empty settings)).takeAll steps with ⟨n, refused⟩
  simp only [follows, takes] at accepted
  cases refused with
  | some refused => cases accepted
  | none =>
    cases e with
    | some e => cases accepted
    | none =>
      refine ⟨n, endsIn_of_follow follows takes, ?_⟩
      exact ok_of_mapError_ok accepted

theorem ofText_of_readAll {settings : QuerySettings} {text : String} {r : Reader} {n : NestedDraft}
    {q : Query} (reads : (start settings).readAll (Lexeme.ofText text) = some r)
    (finishes : ∀ stop, r.finish stop = some n) (built : n.outermost.build = .ok q) :
    Query.ofText settings text = .ok q := by
  obtain ⟨steps, follows, takes⟩ := exists_steps_of_readAll reads (finishes text.utf8ByteSize)
  have followed : stepsOf text = (steps, none) := follows
  have taken : (NestedDraft.ofDraft (.empty settings)).takeAll steps = (n, none) := takes
  rw [Query.ofText, Draft.read, followed]
  simp only [taken, built]
  rfl

end Reader

end Statement

end RecordQuery
