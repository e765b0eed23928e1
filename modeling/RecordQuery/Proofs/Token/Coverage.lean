import Mathlib.Data.List.Basic
import RecordQuery.Proofs.Token.Balance
import RecordQuery.Proofs.Token.Cut

namespace RecordQuery.Lexeme

/-- Whether the byte of a text at a place belongs to a lexeme. -/
def Covers (l : Lexeme) (place : Nat) : Prop :=
  l.start ≤ place ∧ place < l.stop

instance (l : Lexeme) (place : Nat) : Decidable (l.Covers place) :=
  inferInstanceAs (Decidable (l.start ≤ place ∧ place < l.stop))

/-- Whether a lexeme begins in front of a place and goes on behind it. -/
def Crosses (l : Lexeme) (place : Nat) : Prop :=
  l.start < place ∧ place < l.stop

instance (l : Lexeme) (place : Nat) : Decidable (l.Crosses place) :=
  inferInstanceAs (Decidable (l.start < place ∧ place < l.stop))

/-- A lexeme of at least one character of a text, at the bytes that these take up there. -/
structure IsCutFrom (l : Lexeme) (start : Nat) (cs before own : List Char) : Prop where
  text : cs = before ++ (own ++ l.behind)
  start : l.start = start + byteLength before
  stop : l.stop = l.start + byteLength own
  nonempty : own ≠ []

/-- Lexemes one after another in a text that begins at a byte, with blanks between them. -/
inductive Tiles : Nat → List Char → List Lexeme → Prop
  | nil {start : Nat} : Tiles start [] []
  | space {start : Nat} {c : Char} {rest : List Char} {ls : List Lexeme} :
      Token.isSpace c = true → Tiles (start + c.utf8Size) rest ls → Tiles start (c :: rest) ls
  | token {start : Nat} {own behind : List Char} {t : Token} {ls : List Lexeme} : own ≠ [] →
      Tiles (start + byteLength own) behind ls →
      Tiles start (own ++ behind) (⟨start, start + byteLength own, t, behind⟩ :: ls)

theorem tiles_scanFrom (start : Nat) (cs : List Char) : Tiles start cs (scanFrom start cs) := by
  induction start, cs using scanFrom.induct with
  | case1 =>
    rw [scanFrom]
    exact .nil
  | case2 start c rest space ih =>
    rw [scanFrom_space space]
    exact .space space ih
  | case3 start c rest visible t more scanned stop ih =>
    have split : c :: rest = (c :: rest.take more) ++ rest.drop more := by
      rw [List.cons_append, List.take_append_drop]
    have length : stop = start + byteLength (c :: rest.take more) := Nat.add_assoc ..
    rw [scanFrom, if_neg visible]
    simp only [scanned]
    rw [split]
    rw [length] at ih
    exact (Nat.add_assoc .. : start + c.utf8Size + _ = _) ▸ .token (List.cons_ne_nil _ _) ih

namespace Tiles

variable {start : Nat} {cs : List Char} {ls : List Lexeme}

theorem exists_isCutFrom (tiles : Tiles start cs ls) :
    ∀ l ∈ ls, ∃ before own, l.IsCutFrom start cs before own := by
  induction tiles with
  | nil => nofun
  | @space start c rest ls space _ ih =>
    intro l member
    obtain ⟨before, own, cut⟩ := ih l member
    exact ⟨c :: before, own, congrArg (c :: ·) cut.text,
      by rw [cut.start, byteLength, Nat.add_assoc], cut.stop, cut.nonempty⟩
  | @token start own behind t ls nonempty _ ih =>
    intro l member
    rcases List.mem_cons.mp member with rfl | later
    · exact ⟨[], own, rfl, rfl, rfl, nonempty⟩
    · obtain ⟨before, next, cut⟩ := ih l later
      refine ⟨own ++ before, next, ?_, ?_, cut.stop, cut.nonempty⟩
      · rw [cut.text, List.append_assoc]
      · rw [cut.start, byteLength_append, Nat.add_assoc]

theorem start_le (tiles : Tiles start cs ls) : ∀ l ∈ ls, start ≤ l.start := by
  intro l member
  obtain ⟨before, own, cut⟩ := tiles.exists_isCutFrom l member
  exact cut.start ▸ Nat.le_add_right ..

theorem pairwise (tiles : Tiles start cs ls) : ls.Pairwise fun a b => a.stop ≤ b.start := by
  induction tiles with
  | nil => exact .nil
  | space _ _ ih => exact ih
  | token _ rest ih => exact .cons rest.start_le ih

/-- Every character that is not blank belongs to a lexeme. -/
theorem covers (tiles : Tiles start cs ls) {before after : List Char} {c : Char}
    (split : cs = before ++ c :: after) :
    Token.isSpace c = true ∨ ∃ l ∈ ls, l.Covers (start + byteLength before) := by
  induction tiles generalizing before with
  | nil => exact absurd split (by simp)
  | @space start d rest ls space _ ih =>
    cases before with
    | nil =>
      cases split
      exact .inl space
    | cons e before =>
      obtain ⟨rfl, later⟩ := List.cons.inj split
      rw [byteLength, ← Nat.add_assoc]
      exact ih later
  | @token start own behind t ls _ _ ih =>
    have later {front : List Char} (same : behind = front ++ c :: after) :
        Token.isSpace c = true ∨
          ∃ l ∈ (⟨start, start + byteLength own, t, behind⟩ : Lexeme) :: ls,
            l.Covers (start + byteLength (own ++ front)) := by
      rw [byteLength_append, ← Nat.add_assoc]
      exact (ih same).imp_right List.exists_mem_cons_of_exists
    rcases List.append_eq_append_iff.mp split with ⟨front, rfl, same⟩ | ⟨within, rfl, same⟩
    · exact later same
    · cases within with
      | nil => simpa using @later [] same.symm
      | cons d within =>
        have length := byteLength_append before (d :: within)
        have positive := byteLength_pos (List.cons_ne_nil d within)
        exact .inr ⟨_, List.mem_cons_self .., Nat.le_add_right .., by simp only; omega⟩

end Tiles

/-- A call begins with its name and ends with the parenthesis behind its arguments. -/
theorem exists_arguments_of_call? {l call : Lexeme} (found : l.call? = some call) :
    ∃ inside, l.behind = '(' :: (inside ++ ')' :: call.behind) ∧ call.start = l.start ∧
      call.stop = l.stop + byteLength ('(' :: (inside ++ [')'])) := by
  unfold call? at found
  split at found
  · rename_i name rest _ behind
    split at found
    · obtain ⟨inside, closed, rfl⟩ := Option.map_eq_some_iff.mp found
      obtain ⟨after, rfl⟩ := exists_of_untilClosed closed
      have parens : byteLength ('(' :: (inside ++ [')'])) = 1 + (byteLength inside + 1) := by
        rw [byteLength, byteLength_append]
        rfl
      refine ⟨inside, ?_, rfl, ?_⟩
      · rw [behind, ← List.drop_drop, List.drop_left]
        rfl
      · rw [parens]
        change l.stop + 2 + byteLength inside = _
        omega
    · cases found
  · cases found

theorem le_stop_of_call? {l call : Lexeme} (found : l.call? = some call) : l.stop ≤ call.stop := by
  obtain ⟨inside, -, -, stop⟩ := exists_arguments_of_call? found
  exact stop ▸ Nat.le_add_right ..

theorem IsCutFrom.call? {l call : Lexeme} {start : Nat} {cs before own : List Char}
    (cut : l.IsCutFrom start cs before own) (found : l.call? = some call) :
    ∃ own, call.IsCutFrom start cs before own := by
  obtain ⟨inside, behind, begins, stop⟩ := exists_arguments_of_call? found
  refine ⟨own ++ '(' :: (inside ++ [')']), ?_, begins.trans cut.start, ?_, by simp⟩
  · rw [cut.text, behind]
    simp
  · rw [stop, cut.stop, begins, byteLength_append, Nat.add_assoc]

/-- Lexemes none of which is empty, each one in front of those behind it. -/
structure Apart (ls : List Lexeme) : Prop where
  nonempty : ∀ l ∈ ls, l.start < l.stop
  ordered : ls.Pairwise fun a b => a.stop ≤ b.start

theorem IsCutFrom.start_lt {l : Lexeme} {start : Nat} {cs before own : List Char}
    (cut : l.IsCutFrom start cs before own) : l.start < l.stop :=
  cut.stop ▸ Nat.lt_add_of_pos_right (byteLength_pos cut.nonempty)

theorem Tiles.apart {start : Nat} {cs : List Char} {ls : List Lexeme} (tiles : Tiles start cs ls) :
    Apart ls where
  nonempty l member := by
    obtain ⟨before, own, cut⟩ := tiles.exists_isCutFrom l member
    exact cut.start_lt
  ordered := tiles.pairwise

section

variable {ls rest : List Lexeme} {l call : Lexeme}

theorem start_of_mem_assemble (member : l ∈ assemble ls) : ∃ raw ∈ ls, l.start = raw.start := by
  rcases of_mem_assemble member with plain | ⟨raw, among, found⟩
  · exact ⟨l, plain, rfl⟩
  · obtain ⟨_, -, begins, -⟩ := exists_arguments_of_call? found
    exact ⟨raw, among, begins⟩

namespace Apart

theorem cons (apart : Apart rest) (nonempty : l.start < l.stop)
    (behind : ∀ m ∈ rest, l.stop ≤ m.start) : Apart (l :: rest) :=
  ⟨List.forall_mem_cons.mpr ⟨nonempty, apart.nonempty⟩, .cons behind apart.ordered⟩

theorem tail (apart : Apart (l :: rest)) : Apart rest :=
  ⟨(List.forall_mem_cons.mp apart.nonempty).2, (List.pairwise_cons.mp apart.ordered).2⟩

theorem dropWhile (apart : Apart ls) (p : Lexeme → Bool) : Apart (ls.dropWhile p) :=
  ⟨fun l member => apart.nonempty l ((List.dropWhile_sublist p).mem member),
    apart.ordered.sublist (List.dropWhile_sublist p)⟩

/-- Behind the lexemes that begin in front of a place, all begin there or behind it. -/
theorem le_start_of_mem_dropWhile (apart : Apart ls) {stop : Nat}
    (member : l ∈ ls.dropWhile fun next => next.start < stop) : stop ≤ l.start := by
  induction ls with
  | nil => cases member
  | cons first rest ih =>
    rw [List.dropWhile_cons] at member
    split at member
    · exact ih apart.tail member
    · rename_i begins
      have bound : stop ≤ first.start := by simpa using begins
      rcases List.mem_cons.mp member with rfl | later
      · exact bound
      · have nonempty := apart.nonempty first (List.mem_cons_self ..)
        have ordered := (List.pairwise_cons.mp apart.ordered).1 l later
        omega

theorem assemble (apart : Apart ls) : Apart (assemble ls) := by
  induction ls using Lexeme.assemble.induct with
  | case1 =>
    rw [Lexeme.assemble]
    exact apart
  | case2 l rest plain ih =>
    rw [Lexeme.assemble, plain]
    refine (ih apart.tail).cons (apart.nonempty l (List.mem_cons_self ..)) fun m member => ?_
    obtain ⟨raw, among, begins⟩ := start_of_mem_assemble member
    exact begins ▸ (List.pairwise_cons.mp apart.ordered).1 raw among
  | case3 l rest call found ih =>
    rw [Lexeme.assemble, found]
    obtain ⟨_, -, begins, -⟩ := exists_arguments_of_call? found
    have nonempty := apart.nonempty l (List.mem_cons_self ..)
    have longer := le_stop_of_call? found
    refine (ih (apart.tail.dropWhile _)).cons (by omega) fun m member => ?_
    obtain ⟨raw, among, same⟩ := start_of_mem_assemble member
    exact same ▸ apart.tail.le_start_of_mem_dropWhile among

/-- What belongs to a lexeme still belongs to one, or to one that a call has swallowed without
reaching to its end. -/
theorem covers_assemble (apart : Apart ls) {place : Nat} (member : l ∈ ls)
    (here : l.Covers place) :
    (∃ m ∈ Lexeme.assemble ls, m.Covers place) ∨
      ∃ call ∈ Lexeme.assemble ls, l.Crosses call.stop ∧ call.stop ≤ place := by
  induction ls using Lexeme.assemble.induct with
  | case1 => cases member
  | case2 first rest plain ih =>
    rw [Lexeme.assemble, plain]
    rcases List.mem_cons.mp member with rfl | later
    · exact .inl ⟨l, List.mem_cons_self .., here⟩
    · exact (ih apart.tail later).imp List.exists_mem_cons_of_exists
        List.exists_mem_cons_of_exists
  | case3 first rest call found ih =>
    rw [Lexeme.assemble, found]
    obtain ⟨_, -, begins, -⟩ := exists_arguments_of_call? found
    have longer := le_stop_of_call? found
    have fused : call ∈ call :: Lexeme.assemble
        (rest.dropWhile fun next => decide (next.start < call.stop)) := List.mem_cons_self ..
    obtain ⟨from', upTo⟩ := here
    rcases List.mem_cons.mp member with rfl | later
    · exact .inl ⟨call, fused, by omega, by omega⟩
    have nonempty := apart.nonempty first (List.mem_cons_self ..)
    have behind := (List.pairwise_cons.mp apart.ordered).1 l later
    rw [← List.takeWhile_append_dropWhile (l := rest)
      (p := fun next => decide (next.start < call.stop))] at later
    rcases List.mem_append.mp later with swallowed | after
    · have within : l.start < call.stop := by
        simpa using List.all_eq_true.mp List.all_takeWhile l swallowed
      by_cases reached : place < call.stop
      · exact .inl ⟨call, fused, by omega, reached⟩
      · exact .inr ⟨call, fused, ⟨within, by omega⟩, by omega⟩
    · exact (ih (apart.tail.dropWhile _) after).imp List.exists_mem_cons_of_exists
        List.exists_mem_cons_of_exists

end Apart

end

theorem exists_isCutFrom_ofText {text : String} {l : Lexeme} (member : l ∈ ofText text) :
    ∃ before own, l.IsCutFrom 0 text.toList before own := by
  have tiles := tiles_scanFrom 0 text.toList
  rcases of_mem_assemble member with plain | ⟨raw, among, found⟩
  · exact tiles.exists_isCutFrom l plain
  · obtain ⟨before, own, cut⟩ := tiles.exists_isCutFrom raw among
    obtain ⟨longer, whole⟩ := cut.call? found
    exact ⟨before, longer, whole⟩

theorem IsCutFrom.stop_le {l : Lexeme} {cs before own : List Char}
    (cut : l.IsCutFrom 0 cs before own) : l.stop ≤ byteLength cs := by
  rw [cut.text, byteLength_append, byteLength_append, cut.stop, cut.start]
  omega

/-- The lexemes of a text are not empty, stand one after another in it, and leave nothing but
blanks out, apart from what a call cuts off: where a token that begins inside of its parentheses
goes on behind the last of them, the rest of the token is lost. -/
theorem ofText_spans (text : String) :
    (∀ l ∈ ofText text, l.start < l.stop ∧ l.stop ≤ byteLength text.toList) ∧
      (ofText text).Pairwise (fun a b => a.stop ≤ b.start) ∧
      ∀ before c after, text.toList = before ++ c :: after →
        Token.isSpace c = true ∨ (∃ l ∈ ofText text, l.Covers (byteLength before)) ∨
          ∃ call ∈ ofText text, ∃ token ∈ scanFrom 0 text.toList,
            token.Crosses call.stop ∧ token.Covers (byteLength before) ∧
              call.stop ≤ byteLength before := by
  have tiles := tiles_scanFrom 0 text.toList
  refine ⟨fun l member => ?_, tiles.apart.assemble.ordered, fun before c after split => ?_⟩
  · obtain ⟨before, own, cut⟩ := exists_isCutFrom_ofText member
    exact ⟨cut.start_lt, cut.stop_le⟩
  · refine (tiles.covers split).imp_right ?_
    rintro ⟨l, member, here⟩
    rw [Nat.zero_add] at here
    refine (tiles.apart.covers_assemble member here).imp_right ?_
    rintro ⟨call, among, crosses, behind⟩
    exact ⟨call, among, l, member, crosses, here, behind⟩

/-- A parenthesis between backticks closes the call all the same, and the rest of the name is in no
lexeme. -/
theorem not_ofText_covers : ∃ text before c after,
    String.toList text = before ++ c :: after ∧ Token.isSpace c = false ∧
      ∀ l ∈ ofText text, ¬ l.Covers (byteLength before) := by
  have lexemes : ofText "f(`a)b`) c" =
      [⟨0, 5, .call "f" ["`a"], "b`) c".toList⟩, ⟨7, 8, .sign .closeParen, " c".toList⟩,
        ⟨9, 10, .path "c", []⟩] := by
    decide +kernel
  refine ⟨"f(`a)b`) c", "f(`a)".toList, 'b', "`) c".toList, rfl, rfl, ?_⟩
  rw [lexemes]
  decide

end RecordQuery.Lexeme
