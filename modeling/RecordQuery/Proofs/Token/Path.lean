import RecordQuery.Token.Scan

namespace RecordQuery.Token

/-- Whether no path goes on with these characters. -/
def EndsPath (behind : List Char) : Prop :=
  ∀ c ∈ behind.head?, inName c = false ∧ c ≠ '.' ∧ c ≠ '['

theorem runLength_append {p : Char → Bool} {run behind : List Char} (all : ∀ c ∈ run, p c = true)
    (ends : ∀ c ∈ behind.head?, p c = false) : runLength p (run ++ behind) = run.length := by
  rw [runLength, List.takeWhile_append_of_pos all]
  cases behind with
  | nil => rw [List.takeWhile_nil, List.append_nil]
  | cons c rest => rw [List.takeWhile_cons_of_neg (by simp [ends c rfl]), List.append_nil]

theorem exists_run (p : Char → Bool) (cs : List Char) :
    ∃ run behind, cs = run ++ behind ∧ (∀ c ∈ run, p c = true) ∧
      (∀ c ∈ behind.head?, p c = false) ∧ runLength p cs = run.length := by
  refine ⟨cs.takeWhile p, cs.dropWhile p, List.takeWhile_append_dropWhile.symm,
    List.all_eq_true.mp List.all_takeWhile, fun c first => ?_, rfl⟩
  have stopped := List.head?_dropWhile_not p cs
  rw [Option.mem_def.mp first] at stopped
  exact stopped

/-- A mark of iteration where one may stand, or nothing. -/
def IsMark (marked : Bool) (cs : List Char) : Prop :=
  cs = [] ∨ marked = true ∧ cs = ['[', ']']

/-- The text between two backticks. -/
def IsQuotedName (cs : List Char) : Prop :=
  ∀ c ∈ cs, FieldPath.isBacktick c = false

/-- The steps of a path or a locator, as they are written. -/
inductive Steps (marked : Bool) : List Char → Prop
  | done : Steps marked []
  | quoted {name mark more : List Char} : IsQuotedName name → IsMark marked mark →
      Steps marked more → Steps marked ('.' :: '\x60' :: (name ++ '\x60' :: (mark ++ more)))
  | bare {c : Char} {name mark more : List Char} : inName c = true → (∀ d ∈ name, inName d = true) →
      IsMark marked mark → Steps marked more → Steps marked ('.' :: c :: (name ++ (mark ++ more)))

section

variable {marked : Bool} {cs behind : List Char}

/-- Steps end the name and the mark in front of them. -/
theorem Steps.head_append (steps : Steps marked cs) (ends : EndsPath behind) :
    ∀ c ∈ (cs ++ behind).head?, c ≠ '[' ∧ inName c = false := by
  intro c first
  cases steps with
  | done => exact ⟨(ends c first).2.2, (ends c first).1⟩
  | quoted => cases first; decide
  | bare => cases first; decide

theorem markLength_eq_zero (cs : List Char) (plain : ∀ c ∈ cs.head?, c ≠ '[') :
    markLength cs = 0 := by
  unfold markLength
  split
  · exact absurd rfl (plain _ rfl)
  · rfl

theorem markLength_append {mark : List Char} (isMark : IsMark marked mark)
    (plain : ∀ c ∈ behind.head?, c ≠ '[') :
    (if marked then markLength (mark ++ behind) else 0) = mark.length := by
  rcases isMark with rfl | ⟨rfl, rfl⟩
  · rw [List.nil_append, markLength_eq_zero behind plain, ite_self]
    rfl
  · rfl

theorem backtickLength?_append {name : List Char} (quoted : IsQuotedName name)
    (behind : List Char) :
    backtickLength? (name ++ '\x60' :: behind) = some (name.length + 1) := by
  have run : runLength (fun c => !FieldPath.isBacktick c) (name ++ '\x60' :: behind) =
      name.length := by
    refine runLength_append (fun c member => by simp [quoted c member]) fun c first => ?_
    cases first
    decide
  simp [backtickLength?, run]

theorem exists_backtick {n : Nat} (closed : backtickLength? cs = some n) :
    ∃ name behind, cs = name ++ '\x60' :: behind ∧ IsQuotedName name ∧ n = name.length + 1 := by
  obtain ⟨name, behind, rfl, all, ends, run⟩ :=
    exists_run (fun c => !FieldPath.isBacktick c) cs
  simp only [backtickLength?, run] at closed
  cases behind with
  | nil => simp at closed
  | cons c rest =>
    have tick : c = '\x60' := by simpa [FieldPath.isBacktick] using ends c rfl
    subst tick
    refine ⟨name, rest, rfl, fun c member => by simpa using all c member, ?_⟩
    simpa using closed.symm

theorem exists_mark (marked : Bool) (cs : List Char) :
    ∃ mark behind, cs = mark ++ behind ∧ IsMark marked mark ∧
      (if marked then markLength cs else 0) = mark.length := by
  cases marked with
  | false => exact ⟨[], cs, rfl, .inl rfl, rfl⟩
  | true =>
    simp only [if_true]
    unfold markLength
    split
    · exact ⟨['[', ']'], _, rfl, .inr ⟨rfl, rfl⟩, rfl⟩
    · exact ⟨[], cs, rfl, .inl rfl, rfl⟩

theorem Steps.stepsLength? (steps : Steps marked cs) (ends : EndsPath behind) :
    stepsLength? marked (cs ++ behind) = some cs.length := by
  induction steps with
  | done =>
    rw [List.nil_append, Token.stepsLength?.eq_def]
    split
    · exact absurd rfl (ends _ rfl).2.1
    · rfl
  | @quoted name mark more quoted isMark steps ih =>
    have plain := fun c first => (steps.head_append ends c first).1
    have left : (name ++ '\x60' :: (mark ++ (more ++ behind))).drop (name.length + 1) =
        mark ++ (more ++ behind) := by simp
    have behindMark : (name ++ '\x60' :: (mark ++ (more ++ behind))).drop
        (name.length + 1 + mark.length) = more ++ behind := by
      rw [← List.drop_drop, left, List.drop_left]
    simp only [List.cons_append, List.append_assoc]
    rw [Token.stepsLength?, if_pos (by decide), backtickLength?_append quoted]
    simp only [left, markLength_append isMark plain, behindMark, ih, Option.map_some,
      List.length_cons, List.length_append]
    congr 1
    omega
  | @bare c name mark more first name isMark steps ih =>
    have plain := fun c first => (steps.head_append ends c first).1
    have stop : ∀ d ∈ (mark ++ (more ++ behind)).head?, inName d = false := by
      rcases isMark with rfl | ⟨-, rfl⟩
      · exact fun d found => (steps.head_append ends d found).2
      · intro d found
        cases found
        decide
    have run := runLength_append name stop
    have tick : FieldPath.isBacktick c = false := by
      cases same : FieldPath.isBacktick c with
      | false => rfl
      | true =>
        rw [FieldPath.isBacktick, beq_iff_eq] at same
        subst same
        cases first
    simp only [List.cons_append, List.append_assoc]
    rw [Token.stepsLength?, if_neg (by simp [tick]), if_pos first]
    simp only [run, List.drop_left, markLength_append isMark plain, ← List.drop_drop, ih,
      Option.map_some, List.length_cons, List.length_append]
    congr 1
    omega

/-- What is read as steps is written as steps. -/
theorem exists_steps {n : Nat} (read : stepsLength? marked cs = some n) :
    ∃ steps behind, cs = steps ++ behind ∧ Steps marked steps ∧ n = steps.length := by
  fun_induction stepsLength? marked cs generalizing n with
  | case1 => cases read
  | case2 =>
    rename_i c rest tick k closed length ih
    obtain ⟨name, after, rfl, quoted, rfl⟩ := exists_backtick closed
    have left : (name ++ '\x60' :: after).drop (name.length + 1) = after := by simp
    obtain ⟨mark, behind, rfl, isMark, measured⟩ := exists_mark marked after
    have measured : length = mark.length := by
      rw [← measured, ← left, ← dite_eq_ite]
    rw [measured, ← List.drop_drop, left, List.drop_left] at read ih
    obtain ⟨later, inner, rfl⟩ := Option.map_eq_some_iff.mp read
    obtain ⟨more, behind, rfl, isSteps, rfl⟩ := ih inner
    obtain rfl : c = '\x60' := beq_iff_eq.mp tick
    refine ⟨_, behind, ?_, .quoted quoted isMark isSteps, ?_⟩
    · simp only [List.cons_append, List.append_assoc]
    · simp only [List.length_cons, List.length_append]
      omega
  | case3 =>
    rename_i c rest tick first k length ih
    obtain ⟨name, after, rfl, all, -, run⟩ := exists_run inName rest
    have counted : k = name.length := run
    have left : (name ++ after).drop name.length = after := List.drop_left
    obtain ⟨mark, behind, rfl, isMark, measured⟩ := exists_mark marked after
    have measured : length = mark.length := by
      rw [← measured, ← left, ← counted, ← dite_eq_ite]
    rw [measured, counted, ← List.drop_drop, left, List.drop_left] at read ih
    obtain ⟨later, inner, rfl⟩ := Option.map_eq_some_iff.mp read
    obtain ⟨more, behind, rfl, isSteps, rfl⟩ := ih inner
    refine ⟨_, behind, ?_, .bare first all isMark isSteps, ?_⟩
    · simp only [List.cons_append, List.append_assoc]
    · simp only [List.length_cons, List.length_append]
      omega
  | case4 | case5 =>
    cases read
    exact ⟨[], _, rfl, .done, rfl⟩

end

/-- The text of a path. -/
inductive IsPath : List Char → Prop
  | bare {c : Char} {name mark steps : List Char} : startsName c = true →
      (∀ d ∈ name, inName d = true) → IsMark true mark → Steps true steps →
      IsPath (c :: (name ++ (mark ++ steps)))
  | quoted {name mark steps : List Char} : IsQuotedName name → IsMark true mark →
      Steps true steps → IsPath ('\x60' :: (name ++ '\x60' :: (mark ++ steps)))

/-- The characters that begin a sign, a locator or a negative number. -/
def signs : List Char :=
  ['=', '!', '<', '>', '(', ')', ',', '*', '[', '-']

theorem scan_other {c : Char} (other : c ∉ signs) (rest : List Char) :
    scan c rest =
      if c = '"' ∨ c = '\'' then
        ofChars (if (quotedLength c rest).2 then .quoted else .unterminated) c rest
          (quotedLength c rest).1
      else if Text.isDigit c then ofChars .number c rest (numberLength rest)
      else if FieldPath.isBacktick c then
        match backtickLength? rest with
        | some name => scanSteps c rest name
        | none => unknownToEnd c rest
      else if startsName c then scanName c rest
      else ofChars .unknown c rest 0 := by
  unfold scan
  split
  case h_16 => rfl
  all_goals exact absurd (by decide) other

/-- None of these characters begins a text between quotes, a name or a number without a sign. -/
theorem starts_of_mem_signs {c : Char} (sign : c ∈ signs) :
    ¬ (c = '"' ∨ c = '\'') ∧ Text.isDigit c = false ∧ FieldPath.isBacktick c = false ∧
      startsName c = false := by
  simp only [signs, List.mem_cons, List.not_mem_nil, or_false] at sign
  rcases sign with rfl | rfl | rfl | rfl | rfl | rfl | rfl | rfl | rfl | rfl <;> decide

/-- What one of these characters may begin: a sign, a locator or a negative number, or nothing that
is known. -/
inductive ScansSign (c : Char) (rest : List Char) : Token × Nat → Prop
  | sign (s : Sign) (more : Nat) : ScansSign c rest (.sign s, more)
  | locator : c = '[' → ScansSign c rest (scanLocator c rest)
  | negative {d : Char} {after : List Char} : c = '-' → rest = d :: after →
      Text.isDigit d = true →
      ScansSign c rest (ofChars .number c rest (numberLength after + 1))
  | unknown : ScansSign c rest (ofChars .unknown c rest 0)

theorem scansSign_scan {c : Char} (sign : c ∈ signs) (rest : List Char) :
    ScansSign c rest (scan c rest) := by
  unfold scan
  split
  · exact .sign ..
  · exact .sign ..
  · exact .sign ..
  · exact .sign ..
  · exact .sign ..
  · exact .sign ..
  · exact .sign ..
  · exact .sign ..
  · exact .sign ..
  · exact .sign ..
  · exact .sign ..
  · exact .sign ..
  · exact .sign ..
  · exact .locator rfl
  · split
    · exact .negative rfl rfl ‹_›
    · exact .unknown
  · obtain ⟨quote, digit, tick, name⟩ := starts_of_mem_signs sign
    rw [if_neg quote, digit, tick, name]
    exact .unknown

theorem isDigit_of_startsName {c : Char} (starts : startsName c = true) :
    Text.isDigit c = false := by
  rw [← Bool.not_eq_true]
  intro digit
  simp only [Text.isDigit, Bool.and_eq_true, decide_eq_true_eq, Char.le_def,
    UInt32.le_iff_toNat_le] at digit
  unfold startsName Char.isAlpha Char.isUpper Char.isLower at starts
  simp only [Bool.or_eq_true, Bool.and_eq_true, decide_eq_true_eq, UInt32.le_iff_toNat_le,
    ge_iff_le, beq_iff_eq] at starts
  have nine : '9'.val.toNat = 57 := rfl
  obtain ⟨low, high⟩ := digit
  rcases starts with (((⟨upper, -⟩ | ⟨lower, -⟩) | rfl) | rfl) | rfl
  · have letter : 'A'.val.toNat = 65 := rfl
    omega
  · have letter : 'a'.val.toNat = 97 := rfl
    omega
  · revert high
    decide
  · revert low
    decide
  · revert high
    decide

/-- What holds of a character and not of another one tells them apart. -/
theorem ne_of_holds {p : Char → Bool} {c d : Char} (holds : p c = true) (other : p d = false) :
    c ≠ d := by
  rintro rfl
  exact absurd holds (by simp [other])

theorem isSpace_of_startsName {c : Char} (starts : startsName c = true) : isSpace c = false := by
  simp only [isSpace, Bool.or_eq_false_iff, beq_eq_false_iff_ne]
  exact ⟨⟨⟨ne_of_holds starts rfl, ne_of_holds starts rfl⟩,
    ne_of_holds starts rfl⟩, ne_of_holds starts rfl⟩

theorem scan_name {c : Char} (starts : startsName c = true) (rest : List Char) :
    scan c rest = scanName c rest := by
  have other : c ∉ signs := by
    intro member
    simp only [signs, List.mem_cons, List.not_mem_nil, or_false] at member
    rcases member with rfl | rfl | rfl | rfl | rfl | rfl | rfl | rfl | rfl | rfl <;> cases starts
  have tick : FieldPath.isBacktick c = false :=
    beq_false_of_ne (ne_of_holds starts rfl)
  rw [scan_other other, if_neg, isDigit_of_startsName starts, if_neg Bool.false_ne_true, tick,
    if_neg Bool.false_ne_true, if_pos starts]
  rintro (rfl | rfl) <;> cases starts

theorem scan_backtick (rest : List Char) :
    scan '\x60' rest =
      match backtickLength? rest with
      | some name => scanSteps '\x60' rest name
      | none => unknownToEnd '\x60' rest := by
  rw [scan_other (by decide), if_neg (by decide), if_neg (by decide), if_pos (by decide)]

section

variable {mark steps behind : List Char}

theorem scanSteps_append (c : Char) (front : List Char) (isMark : IsMark true mark)
    (isSteps : Steps true steps) (ends : EndsPath behind) :
    scanSteps c (front ++ (mark ++ (steps ++ behind))) front.length =
      (.path (String.ofList (c :: (front ++ (mark ++ steps)))),
        (front ++ (mark ++ steps)).length) := by
  have plain := fun d first => (isSteps.head_append ends d first).1
  have marked : markLength (mark ++ (steps ++ behind)) = mark.length :=
    markLength_append isMark plain
  have taken : (front ++ (mark ++ (steps ++ behind))).take
      (front.length + (mark.length + steps.length)) = front ++ (mark ++ steps) := by
    rw [← List.append_assoc mark, ← List.append_assoc front, List.take_left']
    simp only [List.length_append]
  unfold scanSteps
  simp only [List.drop_left, ← List.drop_drop, marked, isSteps.stepsLength? ends, ofChars, taken,
    List.length_append, Nat.add_assoc]

/-- A name that goes on is the beginning of a path, whether it is a keyword or not. -/
theorem scanName_eq_scanSteps {rest : List Char} {d : Char}
    (goes : (rest.drop (runLength inName rest)).head? = some d) (on : d = '.' ∨ d = '[') :
    scanName c rest = scanSteps c rest (runLength inName rest) := by
  unfold scanName
  dsimp only
  split
  · rfl
  · rfl
  · rename_i point bracket
    generalize rest.drop (runLength inName rest) = after at goes point bracket
    cases after with
    | nil => cases goes
    | cons e later =>
      cases goes
      rcases on with rfl | rfl
      · exact absurd rfl (point later)
      · exact absurd rfl (bracket later)

theorem scanName_eq_word {rest : List Char}
    (ends : EndsPath (rest.drop (runLength inName rest))) :
    scanName c rest =
      match Keyword.ofText? (String.ofList (c :: rest.take (runLength inName rest))) with
      | some k => (.keyword k, runLength inName rest)
      | none => ofChars .path c rest (runLength inName rest) := by
  unfold scanName
  dsimp only
  split
  · rename_i found
    exact absurd rfl (ends _ (by rw [found]; rfl)).2.1
  · rename_i found
    exact absurd rfl (ends _ (by rw [found]; rfl)).2.2
  · rfl

theorem scanName_append {name : List Char} (all : ∀ d ∈ name, inName d = true)
    (isMark : IsMark true mark) (isSteps : Steps true steps) (ends : EndsPath behind)
    (plain : Keyword.ofText? (String.ofList (c :: (name ++ (mark ++ steps)))) = none) :
    scanName c (name ++ (mark ++ (steps ++ behind))) =
      (.path (String.ofList (c :: (name ++ (mark ++ steps)))),
        (name ++ (mark ++ steps)).length) := by
  have goes {d : Char} (first : (mark ++ (steps ++ behind)).head? = some d)
      (on : d = '.' ∨ d = '[') :
      scanName c (name ++ (mark ++ (steps ++ behind))) =
        (.path (String.ofList (c :: (name ++ (mark ++ steps)))),
          (name ++ (mark ++ steps)).length) := by
    have run : runLength inName (name ++ (mark ++ (steps ++ behind))) = name.length := by
      refine runLength_append all fun e found => ?_
      cases first.symm.trans found
      rcases on with rfl | rfl <;> decide
    have first : ((name ++ (mark ++ (steps ++ behind))).drop
        (runLength inName (name ++ (mark ++ (steps ++ behind))))).head? = some d := by
      rw [run, List.drop_left, first]
    rw [scanName_eq_scanSteps first on, run]
    exact scanSteps_append c _ isMark isSteps ends
  rcases isMark with rfl | ⟨-, rfl⟩
  · cases isSteps with
    | done =>
      simp only [List.nil_append, List.append_nil] at plain ⊢
      have run := runLength_append all fun e found => (ends e found).1
      rw [scanName_eq_word (by rwa [run, List.drop_left]), run, List.take_left, plain]
      simp only [ofChars, List.take_left]
    | quoted => exact goes rfl (.inl rfl)
    | bare => exact goes rfl (.inl rfl)
  · exact goes rfl (.inr rfl)

/-- A path that is no keyword is read as a path where it ends. -/
theorem IsPath.scan {cs : List Char} (isPath : IsPath cs)
    (plain : Keyword.ofText? (String.ofList cs) = none) (ends : EndsPath behind) :
    ∃ c rest, cs = c :: rest ∧ isSpace c = false ∧
      scan c (rest ++ behind) = (.path (String.ofList cs), rest.length) := by
  cases isPath with
  | @bare c name mark steps starts all isMark isSteps =>
    refine ⟨c, _, rfl, isSpace_of_startsName starts, ?_⟩
    rw [scan_name starts, List.append_assoc, List.append_assoc]
    exact scanName_append all isMark isSteps ends plain
  | @quoted name mark steps quoted isMark isSteps =>
    refine ⟨'\x60', _, rfl, rfl, ?_⟩
    have closed (after : List Char) :
        name ++ '\x60' :: (mark ++ after) = (name ++ ['\x60']) ++ (mark ++ after) := by
      simp
    rw [scan_backtick, List.append_assoc, List.cons_append, List.append_assoc,
      backtickLength?_append quoted, closed, closed]
    have read := scanSteps_append '\x60' (name ++ ['\x60']) isMark isSteps ends
    rw [List.length_append, List.length_singleton] at read
    exact read

theorem exists_of_scanSteps {after : List Char} {text : String} {more : Nat}
    (read : scanSteps c (front ++ after) front.length = (.path text, more)) :
    ∃ mark steps behind, after = mark ++ (steps ++ behind) ∧ IsMark true mark ∧
      Steps true steps ∧ text = String.ofList (c :: (front ++ (mark ++ steps))) ∧
      more = (front ++ (mark ++ steps)).length := by
  obtain ⟨mark, rest, rfl, isMark, marked⟩ := exists_mark true after
  have marked : markLength (mark ++ rest) = mark.length := marked
  unfold scanSteps at read
  simp only [List.drop_left, marked, ← List.drop_drop] at read
  split at read
  · rename_i n found
    obtain ⟨steps, behind, rfl, isSteps, rfl⟩ := exists_steps found
    have taken : (front ++ (mark ++ (steps ++ behind))).take
        (front.length + mark.length + steps.length) = front ++ (mark ++ steps) := by
      rw [← List.append_assoc mark, ← List.append_assoc front, List.take_left']
      simp only [List.length_append, Nat.add_assoc]
    simp only [ofChars, taken, Prod.mk.injEq, Token.path.injEq] at read
    refine ⟨mark, steps, behind, rfl, isMark, isSteps, read.1.symm, ?_⟩
    rw [← read.2]
    simp only [List.length_append, Nat.add_assoc]
  · simp [unknownToEnd, ofChars] at read

/-- No keyword has a point, a bracket or a backtick in it. -/
theorem keyword_none {cs : List Char} {d : Char} (member : d ∈ cs)
    (on : d = '.' ∨ d = '[' ∨ d = '\x60') : Keyword.ofText? (String.ofList cs) = none := by
  cases found : Keyword.ofText? (String.ofList cs) with
  | none => rfl
  | some k =>
    have same := List.find?_some found
    simp only [Text.upperAscii, beq_iff_eq, String.toList_ofList] at same
    have inside : d.toUpper ∈ k.spelling.toList := by
      rw [same, String.toList_ofList]
      exact List.mem_map_of_mem member
    rcases on with rfl | rfl | rfl <;> cases k <;> revert inside <;> decide

theorem exists_of_scanName {rest : List Char} {text : String} {more : Nat}
    (starts : startsName c = true) (read : scanName c rest = (.path text, more)) :
    ∃ cs behind, rest = cs ++ behind ∧ IsPath (c :: cs) ∧ text = String.ofList (c :: cs) ∧
      more = cs.length ∧
      (Keyword.ofText? text = none ∨ ∃ d ∈ behind.head?, d = '.' ∨ d = '[') := by
  obtain ⟨name, after, rfl, all, stop, run⟩ := exists_run inName rest
  by_cases on : ∃ d ∈ after.head?, d = '.' ∨ d = '['
  · obtain ⟨d, first, on⟩ := on
    rw [scanName_eq_scanSteps (by rw [run, List.drop_left, first]) on, run] at read
    obtain ⟨mark, steps, behind, rfl, isMark, isSteps, rfl, rfl⟩ := exists_of_scanSteps read
    refine ⟨name ++ (mark ++ steps), behind, by simp, .bare starts all isMark isSteps, rfl, rfl,
      ?_⟩
    rw [← List.append_assoc] at first
    generalize mark ++ steps = part at first
    cases part with
    | nil => exact .inr ⟨d, first, on⟩
    | cons e later =>
      cases first
      have inside : d ∈ name ++ d :: later := List.mem_append_right _ (List.mem_cons_self ..)
      exact .inl (keyword_none (List.mem_cons_of_mem _ inside) (on.imp_right .inl))
  · have ends : EndsPath after := fun d first =>
      ⟨stop d first, fun point => on ⟨d, first, .inl point⟩,
        fun bracket => on ⟨d, first, .inr bracket⟩⟩
    rw [scanName_eq_word (by rwa [run, List.drop_left]), run, List.take_left] at read
    cases word : Keyword.ofText? (String.ofList (c :: name)) with
    | some k =>
      rw [word] at read
      cases read
    | none =>
      rw [word] at read
      simp only [ofChars, List.take_left, Prod.mk.injEq, Token.path.injEq] at read
      obtain ⟨rfl, rfl⟩ := read
      have isPath := IsPath.bare starts all (.inl rfl) .done
      simp only [List.append_nil] at isPath
      exact ⟨name, after, rfl, isPath, rfl, rfl, .inl word⟩

theorem scanLocator_ne_path (rest : List Char) (text : String) :
    (scanLocator c rest).1 ≠ .path text := by
  unfold scanLocator scanPlace
  dsimp only
  split
  · split
    · simp [unknownToEnd, ofChars]
    · split <;> simp [unknownToEnd, ofChars]
  · simp [ofChars]

theorem scan_sign_ne_path (sign : c ∈ signs) (rest : List Char) (text : String) :
    (Token.scan c rest).1 ≠ .path text := by
  have scans := scansSign_scan sign rest
  generalize scan c rest = outcome at scans ⊢
  cases scans with
  | locator => exact scanLocator_ne_path rest text
  | sign | negative | unknown => nofun

/-- What is read as a path is the text of one. It is no keyword, unless a point or a bracket stands
behind it. -/
theorem exists_isPath {rest : List Char} {text : String} {more : Nat}
    (read : Token.scan c rest = (.path text, more)) :
    ∃ cs behind, rest = cs ++ behind ∧ IsPath (c :: cs) ∧ text = String.ofList (c :: cs) ∧
      more = cs.length ∧
      (Keyword.ofText? text = none ∨ ∃ d ∈ behind.head?, d = '.' ∨ d = '[') := by
  by_cases sign : c ∈ signs
  · exact absurd (congrArg Prod.fst read) (scan_sign_ne_path sign rest text)
  · rw [scan_other sign] at read
    split at read
    · split at read <;> simp [ofChars] at read
    split at read
    · simp [ofChars] at read
    split at read
    · rename_i tick
      obtain rfl : c = '\x60' := beq_iff_eq.mp tick
      split at read
      · rename_i k closed
        obtain ⟨name, after, rfl, quoted, rfl⟩ := exists_backtick closed
        have front : name ++ '\x60' :: after = (name ++ ['\x60']) ++ after := by simp
        have length : name.length + 1 = (name ++ ['\x60']).length := by simp
        rw [front, length] at read
        obtain ⟨mark, steps, behind, rfl, isMark, isSteps, rfl, rfl⟩ := exists_of_scanSteps read
        refine ⟨name ++ '\x60' :: (mark ++ steps), behind, by simp,
          .quoted quoted isMark isSteps, by simp, by simp, .inl ?_⟩
        exact keyword_none (List.mem_cons_self ..) (.inr (.inr rfl))
      · simp [unknownToEnd, ofChars] at read
    split at read
    · exact exists_of_scanName ‹_› read
    · simp [ofChars] at read

end

end RecordQuery.Token
