import RecordQuery.Token.Lexeme

namespace RecordQuery.Lexeme

/-- Where a reader of arguments stands behind characters, and how many parentheses are open there.
There is no place behind a parenthesis that closes none of them, or behind a comma outside of
them. -/
def pass (q : Quoting) (depth : Nat) : List Char → Option (Quoting × Nat)
  | [] => some (q, depth)
  | c :: rest =>
    if q = .outside ∧ c = '(' then pass q (depth + 1) rest
    else if q = .outside ∧ c = ')' then if depth = 0 then none else pass q (depth - 1) rest
    else if q = .outside ∧ c = ',' ∧ depth = 0 then none
    else pass (q.next c) depth rest

/-- Characters that close their quotes and their parentheses and have no comma outside of them. -/
def Solid (cs : List Char) : Prop :=
  pass .outside 0 cs = some (.outside, 0)

section

variable {q q' : Quoting} {depth depth' : Nat} {xs : List Char}

theorem untilClosed_cons (q : Quoting) (depth : Nat) (c : Char) (rest : List Char) :
    untilClosed q depth (c :: rest) =
      if q = .outside ∧ c = ')' then
        if depth = 0 then some [] else (untilClosed q (depth - 1) rest).map (c :: ·)
      else if q = .outside ∧ c = '(' then (untilClosed q (depth + 1) rest).map (c :: ·)
      else (untilClosed (q.next c) depth rest).map (c :: ·) := by
  cases depth <;> rfl

theorem pass_append (q : Quoting) (depth : Nat) (xs ys : List Char) :
    pass q depth (xs ++ ys) = (pass q depth xs).bind fun state => pass state.1 state.2 ys := by
  induction xs generalizing q depth with
  | nil => rfl
  | cons c rest ih =>
    rw [List.cons_append, pass, pass]
    split
    · exact ih ..
    split
    · split
      · rfl
      · exact ih ..
    split
    · rfl
    · exact ih ..

/-- More open parentheses do no harm. -/
theorem pass_deeper (more : Nat) (passes : pass q depth xs = some (q', depth')) :
    pass q (depth + more) xs = some (q', depth' + more) := by
  induction xs generalizing q depth with
  | nil =>
    cases passes
    rfl
  | cons c rest ih =>
    rw [pass] at passes ⊢
    split
    · rename_i opens
      rw [if_pos opens] at passes
      have deeper := ih passes
      rwa [Nat.add_right_comm] at deeper
    rename_i opens
    rw [if_neg opens] at passes
    split
    · rename_i closes
      rw [if_pos closes] at passes
      split at passes
      · cases passes
      · rename_i positive
        rw [if_neg (by omega), Nat.sub_add_comm (Nat.pos_of_ne_zero positive)]
        exact ih passes
    rename_i closes
    rw [if_neg closes] at passes
    split
    · rename_i comma
      have outermost : depth = 0 := by omega
      rw [if_pos ⟨comma.1, comma.2.1, outermost⟩] at passes
      cases passes
    · split at passes
      · cases passes
      · exact ih passes

theorem untilClosed_append (passes : pass q depth xs = some (q', depth')) (ys : List Char) :
    untilClosed q depth (xs ++ ys) = (untilClosed q' depth' ys).map (xs ++ ·) := by
  induction xs generalizing q depth with
  | nil =>
    cases passes
    exact Option.map_id'.symm
  | cons c rest ih =>
    have longer (o : Option (List Char)) :
        (o.map (rest ++ ·)).map (c :: ·) = o.map ((c :: rest) ++ ·) := by
      rw [Option.map_map]
      rfl
    rw [pass] at passes
    rw [List.cons_append, untilClosed_cons]
    by_cases opens : q = .outside ∧ c = '('
    · rw [if_pos opens] at passes
      rw [if_neg (by simp [opens.2]), if_pos opens, ih passes, longer]
    rw [if_neg opens] at passes
    by_cases closes : q = .outside ∧ c = ')'
    · rw [if_pos closes] at passes
      rw [if_pos closes]
      split at passes
      · cases passes
      · rename_i positive
        rw [if_neg positive, ih passes, longer]
    rw [if_neg closes] at passes
    rw [if_neg closes, if_neg opens]
    split at passes
    · cases passes
    · rw [ih passes, longer]

theorem splitArguments_append (part ys : List Char) (passes : pass q depth xs = some (q', depth')) :
    splitArguments q depth part (xs ++ ys) =
      splitArguments q' depth' (xs.reverse ++ part) ys := by
  induction xs generalizing q depth part with
  | nil =>
    cases passes
    rfl
  | cons c rest ih =>
    rw [pass] at passes
    rw [List.cons_append, splitArguments, List.reverse_cons, List.append_assoc,
      List.singleton_append]
    split
    · rename_i opens
      rw [if_pos opens] at passes
      exact ih _ passes
    rename_i opens
    rw [if_neg opens] at passes
    split
    · rename_i closes
      rw [if_pos closes] at passes
      split at passes
      · cases passes
      · exact ih _ passes
    rename_i closes
    rw [if_neg closes] at passes
    split
    · rename_i comma
      rw [if_pos comma] at passes
      cases passes
    · rename_i comma
      rw [if_neg comma] at passes
      exact ih _ passes

theorem exists_of_untilClosed {cs inside : List Char}
    (closed : untilClosed q depth cs = some inside) : ∃ after, cs = inside ++ ')' :: after := by
  induction cs generalizing q depth inside with
  | nil => cases closed
  | cons c rest ih =>
    have longer {depth : Nat} {q : Quoting}
        (later : (untilClosed q depth rest).map (c :: ·) = some inside) :
        ∃ after, c :: rest = inside ++ ')' :: after := by
      obtain ⟨tail, inner, rfl⟩ := Option.map_eq_some_iff.mp later
      obtain ⟨after, same⟩ := ih inner
      exact ⟨after, congrArg (c :: ·) same⟩
    rw [untilClosed_cons] at closed
    split at closed
    · rename_i closes
      split at closed
      · cases closed
        exact ⟨rest, congrArg (· :: rest) closes.2⟩
      · exact longer closed
    · split at closed <;> exact longer closed

theorem length_splitArguments_pos (q : Quoting) (depth : Nat) (part cs : List Char) :
    0 < (splitArguments q depth part cs).length := by
  induction cs generalizing q depth part with
  | nil => exact Nat.one_pos
  | cons c rest ih =>
    rw [splitArguments]
    split
    · exact ih ..
    split
    · exact ih ..
    split
    · exact Nat.succ_pos _
    · exact ih ..

/-- What reaches up to the closing parenthesis is passed, or it falls apart at a comma. -/
theorem pass_or_split (part : List Char) (closed : untilClosed q depth (xs ++ [')']) = some xs) :
    pass q depth xs = some (.outside, 0) ∨ 2 ≤ (splitArguments q depth part xs).length := by
  induction xs generalizing q depth part with
  | nil =>
    rw [List.nil_append, untilClosed_cons] at closed
    split at closed
    · rename_i closes
      split at closed
      · rename_i none
        rw [pass, closes.1, none]
        exact .inl rfl
      · cases closed
    split at closed
    · cases closed
    · cases closed
  | cons c rest ih =>
    have shorter {o : Option (List Char)} (found : o.map (c :: ·) = some (c :: rest)) :
        o = some rest := by
      obtain ⟨tail, same, cut⟩ := Option.map_eq_some_iff.mp found
      rw [same, (List.cons.inj cut).2]
    rw [List.cons_append, untilClosed_cons] at closed
    rw [pass, splitArguments]
    by_cases opens : q = .outside ∧ c = '('
    · rw [if_neg (by simp [opens.2]), if_pos opens] at closed
      rw [if_pos opens, if_pos opens]
      exact ih _ (shorter closed)
    rw [if_neg opens, if_neg opens]
    by_cases closes : q = .outside ∧ c = ')'
    · rw [if_pos closes] at closed
      rw [if_pos closes, if_pos closes]
      split at closed
      · cases closed
      · rename_i positive
        rw [if_neg positive]
        exact ih _ (shorter closed)
    rw [if_neg closes, if_neg opens] at closed
    rw [if_neg closes, if_neg closes]
    by_cases comma : q = .outside ∧ c = ',' ∧ depth = 0
    · rw [if_pos comma, if_pos comma, List.length_cons]
      have later := length_splitArguments_pos q 0 [] rest
      exact .inr (by omega)
    · rw [if_neg comma, if_neg comma]
      exact ih _ (shorter closed)

/-- The arguments of a call that is closed are solid. -/
theorem solid_of_mem_splitArguments {part cs inside : List Char}
    (closed : untilClosed q depth cs = some inside)
    (before : pass .outside 0 part.reverse = some (q, depth)) :
    ∀ p ∈ splitArguments q depth part inside, Solid p := by
  induction cs generalizing q depth part inside with
  | nil => cases closed
  | cons c rest ih =>
    have longer (c : Char) : pass .outside 0 (c :: part).reverse = pass q depth [c] := by
      rw [List.reverse_cons, pass_append, before]
      rfl
    rw [untilClosed_cons] at closed
    split at closed
    · rename_i closes
      split at closed
      · rename_i none
        cases closed
        intro p member
        rw [List.mem_singleton.mp member, Solid, before, closes.1, none]
      · rename_i positive
        obtain ⟨tail, inner, rfl⟩ := Option.map_eq_some_iff.mp closed
        rw [splitArguments, if_neg (by simp [closes.2]), if_pos closes]
        refine ih inner ((longer c).trans ?_)
        rw [pass, if_neg (by simp [closes.2]), if_pos closes, if_neg positive]
        rfl
    rename_i closes
    split at closed
    · rename_i opens
      obtain ⟨tail, inner, rfl⟩ := Option.map_eq_some_iff.mp closed
      rw [splitArguments, if_pos opens]
      refine ih inner ((longer c).trans ?_)
      rw [pass, if_pos opens]
      rfl
    · rename_i opens
      obtain ⟨tail, inner, rfl⟩ := Option.map_eq_some_iff.mp closed
      rw [splitArguments, if_neg opens, if_neg closes]
      split
      · rename_i comma
        obtain ⟨rfl, rfl, rfl⟩ := comma
        intro p member
        rcases List.mem_cons.mp member with rfl | later
        · exact before
        · have begun : pass .outside 0 (List.reverse []) = some (.outside, 0) := rfl
          exact ih inner begun p later
      · rename_i comma
        refine ih inner ((longer c).trans ?_)
        rw [pass, if_neg opens, if_neg closes, if_neg comma]
        rfl

end

end RecordQuery.Lexeme
