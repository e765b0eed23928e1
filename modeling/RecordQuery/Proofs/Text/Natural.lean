import RecordQuery.Proofs.Decimal.Order

namespace RecordQuery.Text

/-- What natural order compares at once: a maximal run of digits, by the number it denotes and its
length, or one other character. Among the characters all runs stand at the place of the zero. -/
structure Chunk where
  code : Nat
  number : Nat
  width : Nat

namespace Chunk

def ofRun (digits : List Char) : Chunk :=
  ⟨48, Decimal.valueOf digits, digits.length⟩

def ofChar (c : Char) : Chunk :=
  ⟨c.toNat, 0, 0⟩

def order : Chunk → Chunk → Ordering :=
  compareLex (compareOn code) (compareLex (compareOn number) (compareOn width))

instance : Std.TransCmp order :=
  inferInstanceAs (Std.TransCmp
    (compareLex (compareOn code) (compareLex (compareOn number) (compareOn width))))

theorem order_eq_then (a b : Chunk) : a.order b =
    (compare a.code b.code).then ((compare a.number b.number).then (compare a.width b.width)) :=
  rfl

theorem order_self (a : Chunk) : a.order a = .eq :=
  Std.ReflCmp.compare_self

instance : Std.LawfulEqCmp order where
  eq_of_compare {a b} same := by
    obtain ⟨code, number, width⟩ := a
    simp only [order_eq_then, Ordering.then_eq_eq, Nat.compare_eq_eq] at same
    obtain ⟨rfl, rfl, rfl⟩ := same
    rfl

end Chunk

/-- The chunks of a text. -/
def chunks : List Char → List Chunk
  | [] => []
  | c :: cs =>
    if isDigit c then .ofRun (digitRun (c :: cs)) :: chunks (afterDigits cs)
    else .ofChar c :: chunks cs
termination_by cs => cs.length
decreasing_by
  · have := afterDigits_length_le cs
    simp only [List.length_cons]
    omega
  · simp

section

variable {c d : Char} {cs ds : List Char}

theorem chunks_digit (digit : isDigit c = true) :
    chunks (c :: cs) = .ofRun (digitRun (c :: cs)) :: chunks (afterDigits cs) := by
  rw [chunks, if_pos digit]

theorem chunks_other (other : isDigit c = false) : chunks (c :: cs) = .ofChar c :: chunks cs := by
  rw [chunks, if_neg (by simp [other])]

theorem isDigit_of_digitRun : ∀ c ∈ digitRun cs, isDigit c = true :=
  List.all_eq_true.mp List.all_takeWhile

theorem order_ofRun (as bs : List Char) :
    (Chunk.ofRun (digitRun as)).order (.ofRun (digitRun bs)) =
      compareRuns (digitRun as) (digitRun bs) := by
  rw [Decimal.compareRuns_eq isDigit_of_digitRun isDigit_of_digitRun]
  rfl

/-- A character that is no digit stands on the same side of every run. -/
theorem order_ofRun_ofChar {digits : List Char} (digit : isDigit c = true)
    (other : isDigit d = false) :
    (Chunk.ofRun digits).order (.ofChar d) = compare c.toNat d.toNat ∧
      (Chunk.ofChar d).order (.ofRun digits) = compare d.toNat c.toNat := by
  have inside := Decimal.isDigit_iff.mp digit
  have outside := mt Decimal.isDigit_iff.mpr (by simp [other] : ¬ isDigit d = true)
  simp only [Chunk.order_eq_then, Chunk.ofRun, Chunk.ofChar]
  rcases Nat.lt_or_ge d.toNat 48 with below | notBelow
  · rw [Std.compare_eq_gt.mpr below, Std.compare_eq_lt.mpr below,
      Std.compare_eq_gt.mpr (show d.toNat < c.toNat by omega),
      Std.compare_eq_lt.mpr (show d.toNat < c.toNat by omega)]
    exact ⟨rfl, rfl⟩
  · have above : 57 < d.toNat := by omega
    rw [Std.compare_eq_lt.mpr (show 48 < d.toNat by omega),
      Std.compare_eq_gt.mpr (show 48 < d.toNat by omega),
      Std.compare_eq_lt.mpr (show c.toNat < d.toNat by omega),
      Std.compare_eq_gt.mpr (show c.toNat < d.toNat by omega)]
    exact ⟨rfl, rfl⟩

/-- Two texts whose first characters are not both digits begin with chunks in the order of these
characters. -/
theorem exists_chunks (notBoth : ¬ (isDigit c && isDigit d) = true) (cs ds : List Char) :
    ∃ x xs y ys, chunks (c :: cs) = x :: xs ∧ chunks (d :: ds) = y :: ys ∧
      x.order y = compare c.toNat d.toNat := by
  cases first : isDigit c with
  | true =>
    have second : isDigit d = false := by simpa [first] using notBoth
    exact ⟨_, _, _, _, chunks_digit first, chunks_other second,
      (order_ofRun_ofChar first second).1⟩
  | false =>
    cases second : isDigit d with
    | true =>
      exact ⟨_, _, _, _, chunks_other first, chunks_digit second,
        (order_ofRun_ofChar second first).2⟩
    | false =>
      refine ⟨_, _, _, _, chunks_other first, chunks_other second, ?_⟩
      rw [Chunk.order_eq_then, Chunk.ofChar, Chunk.ofChar, Std.ReflOrd.compare_self,
        Ordering.eq_then, Ordering.then_eq]

theorem chunks_ne_nil (c : Char) (cs : List Char) : chunks (c :: cs) ≠ [] := by
  rw [chunks]
  split <;> exact List.cons_ne_nil _ _

/-- Natural order goes by the chunks, of which the first different ones decide. -/
theorem compareNatural_eq (as bs : List Char) :
    compareNatural as bs = List.compareLex Chunk.order (chunks as) (chunks bs) := by
  fun_induction compareNatural as bs with
  | case1 => exact Std.ReflCmp.compare_self.symm
  | case2 b bs =>
    obtain ⟨y, ys, chunked⟩ := List.exists_cons_of_ne_nil (chunks_ne_nil b bs)
    rw [chunked, chunks, List.compareLex_nil_cons]
  | case3 a as =>
    obtain ⟨x, xs, chunked⟩ := List.exists_cons_of_ne_nil (chunks_ne_nil a as)
    rw [chunked, chunks, List.compareLex_cons_nil]
  | case4 c as d bs both ih =>
    rw [Bool.and_eq_true] at both
    rw [chunks_digit both.1, chunks_digit both.2, List.compareLex_cons_cons, order_ofRun, ih]
  | case5 as c bs notBoth ih =>
    have other : isDigit c = false := by simpa using notBoth
    rw [chunks_other other, chunks_other other, List.compareLex_cons_cons,
      Chunk.order_self, Ordering.eq_then, ih]
  | case6 c as d bs notBoth apart =>
    obtain ⟨x, xs, y, ys, first, second, order⟩ := exists_chunks notBoth as bs
    have decided : compare c.toNat d.toNat ≠ .eq :=
      fun same => apart (Char.toNat_inj.mp (Nat.compare_eq_eq.mp same))
    rw [first, second, List.compareLex_cons_cons, order]
    cases compared : compare c.toNat d.toNat with
    | eq => exact absurd compared decided
    | _ => rfl

instance : Std.TransCmp compareNatural where
  eq_swap {as bs} := by
    rw [compareNatural_eq, compareNatural_eq]
    exact Std.OrientedCmp.eq_swap
  isLE_trans {as bs cs} := by
    rw [compareNatural_eq, compareNatural_eq, compareNatural_eq]
    exact Std.TransCmp.isLE_trans

theorem digitRun_append_afterDigits (digit : isDigit c = true) :
    digitRun (c :: cs) ++ afterDigits cs = c :: cs := by
  have split := List.takeWhile_append_dropWhile (p := isDigit) (l := c :: cs)
  rwa [List.dropWhile_cons_of_pos digit] at split

/-- Runs that are not told apart are the same digits. -/
theorem digitRun_eq (same : compareRuns (digitRun cs) (digitRun ds) = .eq) :
    digitRun cs = digitRun ds := by
  rw [Decimal.compareRuns_eq isDigit_of_digitRun isDigit_of_digitRun, Ordering.then_eq_eq,
    Nat.compare_eq_eq, Nat.compare_eq_eq] at same
  exact Decimal.eq_of_valueOf_eq isDigit_of_digitRun isDigit_of_digitRun same.2 same.1

instance : Std.LawfulEqCmp compareNatural where
  eq_of_compare {as bs} := by
    fun_induction compareNatural as bs with
    | case1 => exact fun _ => rfl
    | case2 => nofun
    | case3 => nofun
    | case4 c as d bs both ih =>
      intro same
      rw [Bool.and_eq_true] at both
      rw [Ordering.then_eq_eq] at same
      rw [← digitRun_append_afterDigits both.1, ← digitRun_append_afterDigits both.2,
        digitRun_eq same.1, ih same.2]
    | case5 as c bs _ ih => exact fun same => congrArg _ (ih same)
    | case6 c as d bs _ apart =>
      exact fun same => absurd (Char.toNat_inj.mp (Nat.compare_eq_eq.mp same)) apart

theorem chunks_run {digits rest : List Char} (natural : Decimal.isNatural digits = true)
    (ends : ∀ c, rest.head? = some c → isDigit c = false) :
    chunks (digits ++ rest) = .ofRun digits :: chunks rest := by
  cases digits with
  | nil => cases natural
  | cons c digits =>
    have all : (c :: digits).all isDigit = true := natural
    obtain ⟨run, after⟩ := Decimal.digitRun_append all ends
    rw [List.all_cons, Bool.and_eq_true] at all
    rw [List.cons_append] at run after ⊢
    rw [afterDigits, List.dropWhile_cons_of_pos all.1] at after
    rw [chunks_digit all.1, run, afterDigits, after]

/-- A text that begins with a digit and does not end in one has something behind its first run. -/
theorem afterDigits_ne_nil (digit : isDigit c = true)
    (ends : ∀ d, (c :: cs).getLast? = some d → isDigit d = false) : afterDigits cs ≠ [] := by
  intro empty
  have whole : digitRun cs = cs := by
    have split := List.takeWhile_append_dropWhile (p := isDigit) (l := cs)
    rwa [show cs.dropWhile isDigit = [] from empty, List.append_nil] at split
  have later : ∀ d ∈ cs, isDigit d = true := whole ▸ isDigit_of_digitRun
  have last := List.getLast?_eq_some_getLast (List.cons_ne_nil c cs)
  have digits : ∀ d ∈ c :: cs, isDigit d = true := List.forall_mem_cons.mpr ⟨digit, later⟩
  exact absurd (digits _ (List.mem_of_getLast? last)) (by simp [ends _ last])

/-- A text that does not end in a digit has its chunks to itself, whatever follows. -/
theorem chunks_append {front : List Char}
    (ends : ∀ c, front.getLast? = some c → isDigit c = false) (cs : List Char) :
    chunks (front ++ cs) = chunks front ++ chunks cs := by
  fun_induction chunks front with
  | case1 => rfl
  | case2 c front digit ih =>
    obtain ⟨d, behind, later⟩ := List.exists_cons_of_ne_nil (afterDigits_ne_nil digit ends)
    have split := @digitRun_append_afterDigits c front digit
    have natural : Decimal.isNatural (digitRun (c :: front)) = true := by
      rw [Decimal.isNatural, digitRun, List.all_takeWhile, List.takeWhile_cons_of_pos digit]
      rfl
    have other : ∀ e, (afterDigits front ++ cs).head? = .some e → isDigit e = false := by
      have first := List.head?_dropWhile_not isDigit front
      rw [show front.dropWhile isDigit = d :: behind from later] at first
      rw [later]
      rintro e ⟨⟩
      simpa using first
    have last : ∀ e, (afterDigits front).getLast? = .some e → isDigit e = false := by
      intro e here
      refine ends e ?_
      rw [← split, List.getLast?_append, here, Option.some_or]
    calc chunks (c :: front ++ cs)
        = chunks (digitRun (c :: front) ++ (afterDigits front ++ cs)) := by
          rw [← List.append_assoc, split]
      _ = .ofRun (digitRun (c :: front)) :: chunks (afterDigits front ++ cs) :=
          chunks_run natural other
      _ = .ofRun (digitRun (c :: front)) :: chunks (afterDigits front) ++ chunks cs := by
          rw [ih last, List.cons_append]
  | case3 c front other ih =>
    have apart : isDigit c = false := by simpa using other
    have last : ∀ e, front.getLast? = .some e → isDigit e = false := by
      intro e here
      refine ends e ?_
      rw [List.getLast?_cons, here, Option.getD_some]
    rw [List.cons_append, chunks_other apart, ih last, List.cons_append]

theorem compareLex_append {α : Type} {cmp : α → α → Ordering} [Std.ReflCmp cmp]
    (front as bs : List α) :
    List.compareLex cmp (front ++ as) (front ++ bs) = List.compareLex cmp as bs := by
  induction front with
  | nil => rfl
  | cons a front ih =>
    have same : cmp a a = .eq := Std.ReflCmp.compare_self
    rw [List.cons_append, List.cons_append, List.compareLex_cons_cons, same, Ordering.eq_then, ih]

/-- Whether two texts have runs of digits behind a common front. The front does not end in a digit,
and what follows the runs does not begin with one. -/
def RunsMeet (as bs digits others : List Char) : Prop :=
  ∃ front rest ending, as = front ++ (digits ++ rest) ∧ bs = front ++ (others ++ ending) ∧
    Decimal.isNatural digits = true ∧ Decimal.isNatural others = true ∧
    (∀ c, front.getLast? = some c → isDigit c = false) ∧
    (∀ c, rest.head? = some c → isDigit c = false) ∧
    ∀ c, ending.head? = some c → isDigit c = false

/-- Where runs of digits meet, the one of the smaller number goes first. -/
theorem RunsMeet.compareNatural {as bs digits others : List Char}
    (runs : RunsMeet as bs digits others)
    (less : Decimal.valueOf digits < Decimal.valueOf others) : compareNatural as bs = .lt := by
  obtain ⟨front, rest, ending, rfl, rfl, natural, othersNatural, frontEnds, ends, othersEnd⟩ := runs
  have order : (Chunk.ofRun digits).order (.ofRun others) = .lt := by
    rw [Chunk.order_eq_then, Chunk.ofRun, Chunk.ofRun, Std.ReflOrd.compare_self, Ordering.eq_then,
      Std.compare_eq_lt.mpr less, Ordering.lt_then]
  rw [compareNatural_eq, chunks_append frontEnds, chunks_append frontEnds, chunks_run natural ends,
    chunks_run othersNatural othersEnd, compareLex_append, List.compareLex_cons_cons, order,
    Ordering.lt_then]

end

/-- Natural order on texts by the forms that a folding of letters gives them. -/
def naturalOrderBy (fold : String → String) (s t : String) : Ordering :=
  compareNatural (fold s).toList (fold t).toList

theorem naturalOrder_eq : naturalOrder = naturalOrderBy lower :=
  rfl

instance (fold : String → String) : Std.TransCmp (naturalOrderBy fold) where
  eq_swap := (inferInstance : Std.OrientedCmp compareNatural).eq_swap
  isLE_trans := (inferInstance : Std.TransCmp compareNatural).isLE_trans

theorem naturalOrderBy_eq_iff {fold : String → String} {s t : String} :
    naturalOrderBy fold s t = .eq ↔ fold s = fold t := by
  rw [naturalOrderBy, Std.LawfulEqCmp.compare_eq_iff_eq, String.toList_inj]

end RecordQuery.Text
