import RecordQuery.Proofs.Canonical.Condition
import RecordQuery.Proofs.Condition.Acceptance

namespace RecordQuery.Statement

open Lexeme (Spells)
open Token (IsPiece Stops)

/-- Where a reader stands inside of the innermost query, and the draft of that query there. -/
structure Spot where
  clauses : List Clause
  awaiting : Awaiting
  draft : Draft

def Spot.reader (s : Spot) (around : List AroundQuery) (outer : List Draft) : Reader :=
  ⟨⟨s.clauses, around, s.awaiting⟩, ⟨s.draft, outer⟩⟩

/-- Characters that lead a reader from one spot to another, whatever queries stand around. -/
def Leads (cs : List Char) (s s' : Spot) : Prop :=
  ∃ ts, Spells cs ts ∧ ∀ around outer ls, ls.map Lexeme.token = ts →
    (s.reader around outer).readAll ls = some (s'.reader around outer)

theorem stops_flatMap {α : Type} (chars : α → List Char) (rest : List α) :
    Stops (rest.flatMap fun x => ',' :: ' ' :: chars x) := by
  cases rest with
  | nil => exact Stops.nil
  | cons x rest => exact Stops.comma _

namespace Leads

variable {xs ys : List Char} {s s' s'' : Spot}

theorem nil (s : Spot) : Leads [] s s :=
  ⟨[], .nil, fun around outer ls tokens => by rw [List.map_eq_nil_iff.mp tokens]; rfl⟩

theorem append (first : Leads xs s s') (second : Leads ys s' s'') (stops : Stops ys) :
    Leads (xs ++ ys) s s'' := by
  obtain ⟨ts, spells, reads⟩ := first
  obtain ⟨us, spellsAgain, readsAgain⟩ := second
  refine ⟨ts ++ us, spells.append spellsAgain stops, fun around outer ls tokens => ?_⟩
  obtain ⟨ms, ns, rfl, before, behind⟩ := List.map_eq_append_iff.mp tokens
  rw [Reader.readAll_of_append (reads around outer ms before), readsAgain around outer ns behind]

theorem blank (leads : Leads xs s s') : Leads (' ' :: xs) s s' := by
  obtain ⟨ts, spells, reads⟩ := leads
  exact ⟨ts, spells.blank, reads⟩

theorem of_piece {t : Token} (piece : IsPiece xs t)
    (reads : ∀ around outer l, l.token = t →
      (s.reader around outer).read l = some (s'.reader around outer)) : Leads xs s s' := by
  refine ⟨[t], .of_piece piece, fun around outer ls tokens => ?_⟩
  obtain ⟨l, rfl, same⟩ := List.map_eq_singleton_iff.mp tokens
  exact Reader.readAll_of_read (reads around outer l same) []

/-- Pieces with a comma and a blank in front of each one lead on as long as every one of them does,
given those behind it. -/
theorem flatMap {α : Type} {chars : α → List Char} {before after : Draft → Spot}
    {add : Draft → α → Draft} {P : Draft → List α → Prop}
    (comma : ∀ d, Leads [','] (after d) (before d))
    (item : ∀ d x rest, P d (x :: rest) →
      Leads (chars x) (before d) (after (add d x)) ∧ P (add d x) rest)
    {rest : List α} {d : Draft} (holds : P d rest) :
    Leads (rest.flatMap fun x => ',' :: ' ' :: chars x) (after d) (after (rest.foldl add d)) := by
  induction rest generalizing d with
  | nil => exact nil _
  | cons x rest ih =>
    obtain ⟨leads, later⟩ := item d x rest holds
    have first := (comma d).append leads.blank (Stops.blank _)
    rw [List.flatMap_cons, List.foldl_cons]
    exact first.append (ih later) (stops_flatMap chars rest)

end Leads

theorem commaSeparated_cons (first : List Char) (rest : List (List Char)) :
    commaSeparated (first :: rest) = first ++ rest.flatMap fun cs => ',' :: ' ' :: cs := by
  induction rest generalizing first with
  | nil => exact (List.append_nil first).symm
  | cons next rest ih =>
    have split : commaSeparated (first :: next :: rest) =
        first ++ [',', ' '] ++ commaSeparated (next :: rest) := rfl
    rw [split, ih, List.flatMap_cons, List.append_assoc]
    rfl

/-- What stands behind a whole clause. -/
def Awaiting.EndsClause : Awaiting → Prop
  | .clause | .afterItem | .afterItemAlias | .afterGroupKey | .afterDirection => True
  | .afterCondition parens => parens = []
  | _ => False

/-- Whether a lexeme begins a clause or ends a query in parentheses. -/
def EndsQuery (t : Token) : Prop :=
  t = .sign .closeParen ∨ ∃ k c, t = .keyword k ∧ Clause.ofKeyword? k = some c

theorem Place.meet_of_endsClause {p : Place} {l : Lexeme} (ends : p.awaiting.EndsClause)
    (next : EndsQuery l.token) : p.meet l = p.atClause l := by
  have comma : l.token ≠ .sign .comma := by
    rcases next with same | ⟨k, c, same, -⟩ <;> rw [same] <;> nofun
  have word : l.token ≠ .keyword .asWord := by
    rcases next with same | ⟨k, c, same, begins⟩
    · rw [same]
      nofun
    · rw [same]
      rintro ⟨⟩
      cases begins
  have joined : connective? l.token = none := by
    rcases next with same | ⟨k, c, same, begins⟩
    · rw [same]
      rfl
    · rw [same]
      cases k <;> first | rfl | cases begins
  cases awaiting : p.awaiting with
  | clause => simp only [meet, awaiting]
  | afterItem =>
    simp only [meet, awaiting]
    exact if_neg comma
  | afterItemAlias =>
    simp only [meet, awaiting]
    exact if_neg comma
  | afterGroupKey =>
    simp only [meet, awaiting]
    exact if_neg comma
  | afterDirection =>
    simp only [meet, awaiting]
    exact if_neg comma
  | afterCondition parens =>
    rw [awaiting] at ends
    obtain rfl : parens = [] := ends
    simp only [meet, awaiting, afterCondition, joined]
  | _ =>
    rw [awaiting] at ends
    exact ends.elim

end RecordQuery.Statement

namespace RecordQuery

/-- The place of a clause in canonical texts. -/
def Clause.place : Clause → Nat
  | .selectFields => 0
  | .source => 1
  | .join => 2
  | .filter => 3
  | .having => 4
  | .groupBy => 5
  | .orderBy => 6
  | .offset => 7
  | .limit => 8

theorem Clause.rank_le_of_place_le {a b : Clause} (le : a.place ≤ b.place) : a.rank ≤ b.rank := by
  cases a <;> cases b <;> revert le <;> decide

/-- The draft of a query that has been written so far. -/
def Draft.ofQuery (q : Query) (aliasable : Bool) (clause : ConditionClause) : Draft where
  settings := .default
  selectAll := q.selectAll
  fields := q.fields
  aliasable
  distinct := q.distinct
  locator := q.locator
  joins := q.joins
  pending := none
  filter := (ConditionDraft.empty true).addAll q.filter.children
  having := (ConditionDraft.empty true).addAll q.having.children
  clause
  groupBy := q.groupBy
  orderBy := q.orderBy
  limit := q.limit
  offset := q.offset

namespace Statement

theorem Place.meetClause_of_ordered {p : Place} {c : Clause}
    (fresh : ¬ (c ≠ .join ∧ p.clauses.contains c))
    (ordered : ∀ last ∈ p.clauses, ¬ c.rank < last.rank) (l : Lexeme) (k : Keyword) :
    p.meetClause l k c = begin { p with clauses := c :: p.clauses } l k c := by
  rw [meetClause, if_neg fresh]
  cases met : p.clauses with
  | nil => rfl
  | cons last rest => exact if_neg (ordered last (by rw [met]; exact List.mem_cons_self ..))

namespace Spot

/-- A clause has come to its end, and only clauses up to a place of canonical texts have been
met. -/
structure EndsBefore (s : Spot) (n : Nat) : Prop where
  awaiting : s.awaiting.EndsClause
  clauses : ∀ c ∈ s.clauses, c.place < n

/-- A spot where so much of a query has been written. -/
def Makes (s : Spot) (q : Query) : Prop :=
  ∃ aliasable clause, s.draft = .ofQuery q aliasable clause

variable {s : Spot} {n : Nat}

theorem EndsBefore.mono {m : Nat} (ends : s.EndsBefore n) (le : n ≤ m) : s.EndsBefore m :=
  ⟨ends.awaiting, fun c member => Nat.lt_of_lt_of_le (ends.clauses c member) le⟩

/-- Behind the next clause the ones after it may follow. -/
theorem EndsBefore.next (ends : s.EndsBefore n) {c : Clause} (le : n ≤ c.place)
    {awaiting : Awaiting} (behind : awaiting.EndsClause) (d : Draft) :
    EndsBefore ⟨c :: s.clauses, awaiting, d⟩ (c.place + 1) := by
  refine ⟨behind, List.forall_mem_cons.mpr ⟨Nat.lt_succ_self _, fun b member => ?_⟩⟩
  have before := ends.clauses b member
  omega

/-- The next clause of a canonical text may begin. -/
theorem EndsBefore.meet (ends : s.EndsBefore n) {l : Lexeme} {k : Keyword} {c : Clause}
    (word : l.token = .keyword k) (begins : Clause.ofKeyword? k = some c)
    (next : n ≤ c.place ∨ c = .join ∧ n ≤ 3) (around : List AroundQuery) (outer : List Draft) :
    (s.reader around outer).place.meet l =
      Place.begin ⟨c :: s.clauses, around, s.awaiting⟩ l k c := by
  rw [Place.meet_of_endsClause ends.awaiting (.inr ⟨k, c, word, begins⟩), Place.atClause, word]
  have fresh : ¬ (c ≠ .join ∧ s.clauses.contains c) := by
    rintro ⟨other, met⟩
    have before := ends.clauses c (List.contains_iff_mem.mp met)
    rcases next with le | ⟨join, -⟩
    · omega
    · exact other join
  have ordered : ∀ last ∈ s.clauses, ¬ c.rank < last.rank := by
    intro last member
    have before := ends.clauses last member
    refine Nat.not_lt.mpr (Clause.rank_le_of_place_le ?_)
    rcases next with le | ⟨rfl, le⟩
    · omega
    · change last.place ≤ 2
      omega
  simp only [begins]
  exact Place.meetClause_of_ordered fresh ordered l k

end Spot

theorem Leads.keyword {s s' : Spot} (k : Keyword)
    (reads : ∀ around outer l, l.token = .keyword k →
      (s.reader around outer).read l = some (s'.reader around outer)) :
    Leads k.spelling.toList s s' :=
  .of_piece (Token.isPiece_keyword k) reads

/-- A word that begins a clause without a step. -/
theorem Leads.begin {s : Spot} {n : Nat} (ends : s.EndsBefore n) {k : Keyword} {c : Clause}
    (begins : Clause.ofKeyword? k = some c) (next : n ≤ c.place) {awaiting : Awaiting}
    (goesOn : ∀ (p : Place) l, p.begin l k c = p.goOn awaiting) :
    Leads k.spelling.toList s ⟨c :: s.clauses, awaiting, s.draft⟩ := by
  refine .keyword k fun around outer l word => ?_
  have met := ends.meet word begins (.inl next) around outer
  rw [goesOn] at met
  rw [Reader.read, met]
  rfl

end Statement

end RecordQuery
