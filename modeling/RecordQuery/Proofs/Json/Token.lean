import RecordQuery.Json.Token
import RecordQuery.Json.Writing
import RecordQuery.Proofs.Decimal.Digits

namespace RecordQuery.Json

/-- The escape of a control character denotes its code unit. -/
theorem unit?_control {n : Nat} (control : n < 0x20) :
    ∃ a b c d, Text.hexDigits 4 n = [a, b, c, d] ∧ unit? a b c d = some n := by
  have denotes : ∀ n < 0x20, Text.hexNumber? (Text.hexDigits 4 n) = some n := by decide
  exact ⟨_, _, _, _, rfl, denotes n control⟩

theorem readText_escapeChar (c : Char) (rest : List Char) :
    readText (escapeChar c ++ rest) = (readText rest).map fun (cs, left) => (c :: cs, left) := by
  unfold escapeChar
  split
  · subst_vars
    rfl
  split
  · subst_vars
    rfl
  split
  · subst_vars
    rfl
  split
  · subst_vars
    rfl
  split
  · subst_vars
    rfl
  split
  · subst_vars
    rfl
  split
  · subst_vars
    rfl
  split
  · rename_i control
    obtain ⟨a, b, d, e, digits, denoted⟩ := unit?_control control
    have low : ¬ (0xDC00 ≤ c.toNat ∧ c.toNat < 0xE000) := by omega
    have high : ¬ (0xD800 ≤ c.toNat ∧ c.toNat < 0xDC00) := by omega
    rw [digits]
    simp only [List.cons_append, List.nil_append, readText, denoted, if_neg low, if_neg high,
      Char.ofNat_toNat]
  · rename_i quote backslash _ _ _ _ _ control
    have plain : ¬ (c.toNat < 0x20 ∨ c = '\\') := by simp [control, backslash]
    rw [List.singleton_append, readText, if_neg plain]
    all_goals simp [quote, backslash]

/-- Reading takes the escapes of a text back. -/
theorem readText_escaped (cs rest : List Char) :
    readText (cs.flatMap escapeChar ++ '"' :: rest) = some (cs, rest) := by
  induction cs with
  | nil => rfl
  | cons c cs ih =>
    rw [List.flatMap_cons, List.append_assoc, readText_escapeChar, ih]
    rfl

/-- Whether a text that follows a number is not read as a part of it. -/
def EndsNumber (rest : List Char) : Prop :=
  ∀ c, rest.head? = some c → Text.isDigit c = false ∧ c ≠ '.' ∧ c ≠ 'e' ∧ c ≠ 'E'

/-- More digits never make a number smaller. -/
theorem le_foldl_digits (digits : List Char) (n : Nat) :
    n ≤ digits.foldl (fun n c => 10 * n + Decimal.digitValue c) n := by
  induction digits generalizing n with
  | nil => exact Nat.le_refl n
  | cons c rest ih =>
    have next := ih (10 * n + Decimal.digitValue c)
    rw [List.foldl_cons]
    omega

theorem accumulate_small {digits : List Char} {significand : Nat}
    (small : digits.foldl (fun n c => 10 * n + Decimal.digitValue c) significand < Nat.pow 2 64) :
    accumulate significand digits =
      (digits.foldl (fun n c => 10 * n + Decimal.digitValue c) significand, []) := by
  induction digits generalizing significand with
  | nil => rfl
  | cons c rest ih =>
    have next : 10 * significand + Decimal.digitValue c < Nat.pow 2 64 :=
      Nat.lt_of_le_of_lt (le_foldl_digits rest _) small
    rw [accumulate, if_pos next, ih small, List.foldl_cons]

theorem accumulate_digitChars {n : Nat} (small : n < Nat.pow 2 64) :
    accumulate 0 (Decimal.digitChars n) = (n, []) := by
  have value := Decimal.valueOf_digitChars n
  rw [Decimal.valueOf] at value
  rw [accumulate_small (by rwa [value]), value]

/-- Behind its sign an integer is read as it has been written. -/
theorem readNumber_digitChars {negative : Bool} {magnitude : Nat} {n : Int64} {rest : List Char}
    (ends : EndsNumber rest) (small : magnitude < Nat.pow 2 64)
    (nonzero : negative = true → 0 < magnitude)
    (value : int64? (if negative = true then -(magnitude : Int) else magnitude) = some n) :
    readNumber negative (Decimal.digitChars magnitude ++ rest) = some (.int n, rest) := by
  obtain ⟨run, after⟩ := Decimal.digitRun_append (Decimal.all_digitChars magnitude)
    fun c first => (ends c first).1
  have leading : ¬ (Decimal.digitChars magnitude = [] ∨
      ((Decimal.digitChars magnitude).head? = some '0' ∧
        (Decimal.digitChars magnitude).length ≠ 1)) := by
    rintro (empty | ⟨zero, long⟩)
    · exact Decimal.digitChars_ne_nil _ empty
    · rcases Nat.eq_zero_or_pos magnitude with rfl | positive
      · exact long (by decide +kernel)
      · exact Decimal.head_digitChars positive zero
  have fraction : readFraction rest = some (none, rest) := by
    cases rest with
    | nil => rfl
    | cons c _ =>
      unfold readFraction
      split
      · rename_i same
        cases same
        exact absurd rfl (ends '.' rfl).2.1
      · rfl
  have mark : readMark rest = some (none, rest) := by
    cases rest with
    | nil => rfl
    | cons c _ =>
      obtain ⟨_, _, lower, upper⟩ := ends c rfl
      rw [readMark, if_neg (by simp [lower, upper])]
  have number : numberOf? negative (Decimal.digitChars magnitude) none none = some (.int n) := by
    have notZero : ¬ (negative = true ∧ magnitude = 0) := fun h => by
      have := nonzero h.1
      omega
    simp only [numberOf?, accumulate_digitChars small, ne_eq, not_true_eq_false, if_false, notZero,
      value]
  simp only [readNumber, run, after, if_neg leading, fraction, mark, number, bind, pure,
    Option.bind]

end RecordQuery.Json
