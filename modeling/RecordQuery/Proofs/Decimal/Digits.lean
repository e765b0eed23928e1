import RecordQuery.Decimal.Layout

namespace RecordQuery.Decimal

theorem isDigit_digitChar {n : Nat} (small : n < 10) : Text.isDigit (digitChar n) = true :=
  (show ∀ n < 10, Text.isDigit (digitChar n) = true by decide) n small

theorem digitValue_digitChar {n : Nat} (small : n < 10) : digitValue (digitChar n) = n :=
  (show ∀ n < 10, digitValue (digitChar n) = n by decide) n small

theorem digitChars_of_lt {n : Nat} (small : n < 10) : digitChars n = [digitChar n] := by
  rw [digitChars, if_pos small]

theorem digitChars_of_ge {n : Nat} (large : 10 ≤ n) :
    digitChars n = digitChars (n / 10) ++ [digitChar (n % 10)] := by
  rw [digitChars, if_neg (Nat.not_lt.mpr large)]

theorem all_digitChars (n : Nat) : (digitChars n).all Text.isDigit = true := by
  induction n using digitChars.induct with
  | case1 n small =>
    rw [digitChars_of_lt small]
    simp [isDigit_digitChar small]
  | case2 n large ih =>
    rw [digitChars_of_ge (Nat.not_lt.mp large), List.all_append, ih]
    simp [isDigit_digitChar (Nat.mod_lt n (by decide))]

theorem digitChars_ne_nil (n : Nat) : digitChars n ≠ [] := by
  rw [digitChars]
  split <;> simp

/-- The digits of a number begin with a digit. -/
theorem exists_digit_digitChars (n : Nat) :
    ∃ c rest, digitChars n = c :: rest ∧ Text.isDigit c = true := by
  obtain ⟨c, rest, digits⟩ := List.exists_cons_of_ne_nil (digitChars_ne_nil n)
  have all := all_digitChars n
  rw [digits] at all
  exact ⟨c, rest, digits, (List.forall_mem_cons.mp (List.all_eq_true.mp all)).1⟩

theorem isNatural_iff {cs : List Char} :
    isNatural cs = true ↔ cs ≠ [] ∧ ∀ c ∈ cs, Text.isDigit c = true := by
  simp [isNatural]

theorem isDigit_head?_append {digits : List Char} (natural : isNatural digits = true)
    (rest : List Char) : ∀ c ∈ (digits ++ rest).head?, Text.isDigit c = true := by
  obtain ⟨nonempty, all⟩ := isNatural_iff.mp natural
  obtain ⟨c, others, rfl⟩ := List.exists_cons_of_ne_nil nonempty
  rintro d ⟨⟩
  exact all c (List.mem_cons_self ..)

theorem isNatural_digitChars (n : Nat) : isNatural (digitChars n) = true := by
  simp [isNatural, digitChars_ne_nil, all_digitChars]

/-- Only zero is written with a zero in front. -/
theorem head_digitChars {n : Nat} (positive : 0 < n) : (digitChars n).head? ≠ some '0' := by
  induction n using digitChars.induct with
  | case1 n small =>
    have digit : ∀ n < 10, 0 < n → digitChar n ≠ '0' := by decide
    rw [digitChars_of_lt small]
    simpa using digit n small positive
  | case2 n large ih =>
    have leading := ih (by omega)
    rw [digitChars_of_ge (Nat.not_lt.mp large)]
    cases written : digitChars (n / 10) with
    | nil => exact absurd written (digitChars_ne_nil _)
    | cons c rest => rwa [written] at leading

theorem valueOf_concat (digits : List Char) (c : Char) :
    valueOf (digits ++ [c]) = 10 * valueOf digits + digitValue c := by
  simp [valueOf]

theorem valueOf_digitChars (n : Nat) : valueOf (digitChars n) = n := by
  induction n using digitChars.induct with
  | case1 n small =>
    rw [digitChars_of_lt small]
    simpa [valueOf] using digitValue_digitChar small
  | case2 n large ih =>
    rw [digitChars_of_ge (Nat.not_lt.mp large), valueOf_concat, ih,
      digitValue_digitChar (Nat.mod_lt n (by decide))]
    omega

/-- A run of digits ends where no digit follows. -/
theorem digitRun_append {digits rest : List Char} (all : digits.all Text.isDigit = true)
    (ends : ∀ c, rest.head? = some c → Text.isDigit c = false) :
    Text.digitRun (digits ++ rest) = digits ∧ Text.afterDigits (digits ++ rest) = rest := by
  induction digits with
  | nil =>
    cases rest with
    | nil => exact ⟨rfl, rfl⟩
    | cons c after => simp [Text.digitRun, Text.afterDigits, ends c rfl]
  | cons d digits ih =>
    rw [List.all_cons, Bool.and_eq_true] at all
    obtain ⟨run, after⟩ := ih all.2
    simp only [Text.digitRun, Text.afterDigits] at run after
    simp [Text.digitRun, Text.afterDigits, all.1, run, after]

theorem isDigit_positional (d : Decimal) :
    d.positional.1 ≠ [] ∧ (∀ c ∈ d.positional.1, Text.isDigit c = true) ∧
      ∀ c ∈ d.positional.2, Text.isDigit c = true := by
  have digits := List.all_eq_true.mp (all_digitChars d.digits)
  have zeros (n : Nat) : ∀ c ∈ List.replicate n '0', Text.isDigit c = true := by
    intro c member
    rw [(List.mem_replicate.mp member).2]
    rfl
  have either {xs ys : List Char} (first : ∀ c ∈ xs, Text.isDigit c = true)
      (second : ∀ c ∈ ys, Text.isDigit c = true) : ∀ c ∈ xs ++ ys, Text.isDigit c = true :=
    fun c member => (List.mem_append.mp member).elim (first c) (second c)
  unfold positional
  dsimp only
  split
  · refine ⟨?_, either digits (zeros _), nofun⟩
    exact List.append_ne_nil_of_left_ne_nil (digitChars_ne_nil _) _
  split
  · rename_i fewer
    refine ⟨?_, fun c member => digits c (List.mem_of_mem_take member),
      fun c member => digits c (List.mem_of_mem_drop member)⟩
    intro empty
    have length := congrArg List.length empty
    rw [List.length_take, List.length_nil] at length
    omega
  · exact ⟨List.cons_ne_nil _ _, zeros 1, either (zeros _) digits⟩

end RecordQuery.Decimal
