import RecordQuery.Proofs.Decimal.Digits
import RecordQuery.Proofs.Decimal.Shortest

namespace RecordQuery

namespace Decimal

/-- The exponent behind its mark, and zero without one. -/
def exponentOf : List Char → ℤ
  | 'e' :: '-' :: digits => -valueOf digits
  | 'e' :: '+' :: digits => valueOf digits
  | _ => 0

/-- The number that a notation denotes: digits, a point with digits behind it or none, and an
exponent or none. -/
def denoted (cs : List Char) : ℚ :=
  match Text.afterDigits cs with
  | '.' :: behind =>
    valueOf (Text.digitRun cs ++ Text.digitRun behind) *
      10 ^ (exponentOf (Text.afterDigits behind) - (Text.digitRun behind).length)
  | mark => valueOf (Text.digitRun cs) * 10 ^ exponentOf mark

theorem foldl_digits (n : ℕ) (digits : List Char) :
    digits.foldl (fun n c => 10 * n + digitValue c) n = n * 10 ^ digits.length + valueOf digits := by
  induction digits generalizing n with
  | nil => simp [valueOf]
  | cons c rest ih =>
    rw [valueOf, List.foldl_cons, List.foldl_cons, ih, ih (10 * 0 + _), List.length_cons, Nat.pow_succ]
    ring

theorem valueOf_append (digits others : List Char) :
    valueOf (digits ++ others) = valueOf digits * 10 ^ others.length + valueOf others := by
  rw [valueOf, List.foldl_append]
  exact foldl_digits _ _

theorem valueOf_zeros (n : ℕ) : valueOf (List.replicate n '0') = 0 := by
  induction n with
  | zero => rfl
  | succ n ih =>
    rw [List.replicate_succ, ← List.singleton_append, valueOf_append, ih,
      show valueOf ['0'] = 0 from rfl, Nat.zero_mul]

variable {whole fraction mark : List Char}

theorem denoted_point (first : whole.all Text.isDigit = true)
    (second : fraction.all Text.isDigit = true)
    (ends : ∀ c, mark.head? = some c → Text.isDigit c = false) :
    denoted (whole ++ '.' :: (fraction ++ mark)) =
      valueOf (whole ++ fraction) * 10 ^ (exponentOf mark - fraction.length) := by
  have point : ∀ c, ('.' :: (fraction ++ mark)).head? = some c → Text.isDigit c = false := by
    rintro c ⟨⟩
    rfl
  obtain ⟨run, after⟩ := digitRun_append first point
  obtain ⟨laterRun, laterAfter⟩ := digitRun_append second ends
  simp only [denoted, run, after, laterRun, laterAfter]

theorem denoted_plain (first : whole.all Text.isDigit = true)
    (ends : ∀ c, mark.head? = some c → Text.isDigit c = false ∧ c ≠ '.') :
    denoted (whole ++ mark) = valueOf whole * 10 ^ exponentOf mark := by
  obtain ⟨run, after⟩ := digitRun_append first fun c here => (ends c here).1
  rw [denoted, run, after]
  split
  · exact absurd rfl (ends '.' rfl).2
  · rfl

/-- Positional notation keeps the number. -/
theorem toRat_positional (d : Decimal) :
    (valueOf (d.positional.1 ++ d.positional.2) : ℚ) * 10 ^ (-(d.positional.2.length : ℤ)) =
      d.toRat := by
  have digits := valueOf_digitChars d.digits
  unfold positional
  dsimp only
  split
  · rename_i whole
    rw [List.append_nil, valueOf_append, valueOf_zeros, List.length_replicate, digits, toRat]
    push_cast
    rw [← zpow_natCast, Int.toNat_of_nonneg whole]
    simp
  · rename_i fraction
    split
    · rename_i inside
      rw [List.take_append_drop, digits, List.length_drop, toRat]
      congr 2
      omega
    · rw [← List.append_assoc, valueOf_append, digits, List.length_append, List.length_replicate,
        toRat, List.singleton_append, ← List.replicate_succ, valueOf_zeros, Nat.zero_mul,
        Nat.zero_add]
      congr 2
      omega

/-- A zero behind the point of a whole number does not change it. -/
theorem toRat_pointed (d : Decimal) {fraction : List Char}
    (pointed : fraction = if d.positional.2 = [] then ['0'] else d.positional.2) :
    (valueOf (d.positional.1 ++ fraction) : ℚ) * 10 ^ (-(fraction.length : ℤ)) = d.toRat := by
  rw [← d.toRat_positional, pointed]
  split
  · rename_i absent
    rw [absent, List.append_nil, valueOf_append, show valueOf ['0'] = 0 from rfl]
    simp
  · rfl

theorem exponentOf_mark (e : ℤ) :
    exponentOf ('e' :: (if e < 0 then '-' else '+') :: digitChars e.natAbs) = e := by
  split
  · rw [exponentOf, valueOf_digitChars]
    omega
  · rw [exponentOf, valueOf_digitChars]
    omega

/-- The characters that numbers are written with. -/
def inNumber (c : Char) : Bool :=
  Text.isDigit c || c == '.' || c == 'e' || c == '+' || c == '-'

/-- A notation of a decimal that begins with a digit and is not that of an integer. -/
structure IsNotation (d : Decimal) (body : List Char) : Prop where
  denotes : denoted body = d.toRat
  digit : ∃ c rest, body = c :: rest ∧ Text.isDigit c = true
  within : ∀ c ∈ body, inNumber c = true
  marked : '.' ∈ body ∨ 'e' ∈ body

theorem inNumber_of_isDigit {c : Char} (digit : Text.isDigit c = true) : inNumber c = true := by
  simp [inNumber, digit]

theorem isNotation_pointed (d : Decimal) :
    d.IsNotation (d.positional.1 ++
      '.' :: if d.positional.2 = [] then ['0'] else d.positional.2) := by
  obtain ⟨nonempty, whole, fraction⟩ := d.isDigit_positional
  have value := d.toRat_pointed rfl
  have digits : ∀ c ∈ (if d.positional.2 = [] then ['0'] else d.positional.2),
      Text.isDigit c = true := by
    split
    · exact List.forall_mem_singleton.mpr rfl
    · exact fraction
  generalize (if d.positional.2 = [] then ['0'] else d.positional.2) = behind at value digits
  generalize d.positional.1 = front at nonempty whole value
  refine ⟨?_, ?_, ?_, Or.inl (List.mem_append_right _ (List.mem_cons_self ..))⟩
  · have ends : ∀ c, ([] : List Char).head? = some c → Text.isDigit c = false := nofun
    have read := denoted_point (List.all_eq_true.mpr whole) (List.all_eq_true.mpr digits) ends
    rw [List.append_nil] at read
    rw [read, ← value, show exponentOf [] = 0 from rfl, Int.zero_sub]
  · obtain ⟨c, rest, rfl⟩ := List.exists_cons_of_ne_nil nonempty
    exact ⟨c, _, rfl, whole c (List.mem_cons_self ..)⟩
  · intro c member
    rcases List.mem_append.mp member with inFront | later
    · exact inNumber_of_isDigit (whole c inFront)
    · rcases List.mem_cons.mp later with rfl | inFraction
      · rfl
      · exact inNumber_of_isDigit (digits c inFraction)

theorem isNotation_scientific (d : Decimal) : d.IsNotation d.scientific := by
  have all := List.all_eq_true.mp (all_digitChars d.digits)
  have value := valueOf_digitChars d.digits
  have place := exponentOf_mark d.leadingExponent
  have length : d.leadingExponent = (digitChars d.digits).length - 1 + d.exponent := rfl
  have powers : ∀ c ∈ (if d.leadingExponent < 0 then '-' else '+') ::
      digitChars d.leadingExponent.natAbs, inNumber c = true := by
    refine List.forall_mem_cons.mpr ⟨?_, fun c member =>
      inNumber_of_isDigit (List.all_eq_true.mp (all_digitChars _) c member)⟩
    split <;> rfl
  unfold scientific
  dsimp only
  generalize (if d.leadingExponent < 0 then '-' else '+') ::
    digitChars d.leadingExponent.natAbs = power at place powers ⊢
  have inMark : ∀ c ∈ 'e' :: power, inNumber c = true := List.forall_mem_cons.mpr ⟨rfl, powers⟩
  have ends : ∀ c, ('e' :: power).head? = some c → Text.isDigit c = false ∧ c ≠ '.' := by
    rintro c ⟨⟩
    exact ⟨rfl, by decide⟩
  cases written : digitChars d.digits with
  | nil => exact absurd written (digitChars_ne_nil _)
  | cons c rest =>
    rw [written] at all value length
    obtain ⟨first, later⟩ := List.forall_mem_cons.mp all
    have alone : [c].all Text.isDigit = true := by simp [first]
    cases rest with
    | nil =>
      refine ⟨?_, ⟨c, _, rfl, first⟩, List.forall_mem_cons.mpr ⟨inNumber_of_isDigit first, inMark⟩,
        Or.inr (List.mem_cons_of_mem _ (List.mem_cons_self ..))⟩
      have read := denoted_plain alone ends
      rw [List.singleton_append, place, value, length] at read
      refine read.trans ?_
      rw [toRat]
      congr 2
      simp
    | cons next rest =>
      refine ⟨?_, ⟨c, _, rfl, first⟩, ?_, Or.inl (List.mem_cons_of_mem _ (List.mem_cons_self ..))⟩
      · have read := denoted_point alone (List.all_eq_true.mpr later) fun c here => (ends c here).1
        rw [List.singleton_append, List.singleton_append, place, value, length] at read
        refine read.trans ?_
        rw [toRat]
        congr 2
        push_cast [List.length_cons]
        ring
      · refine List.forall_mem_cons.mpr ⟨inNumber_of_isDigit first,
          List.forall_mem_cons.mpr ⟨rfl, fun d member => ?_⟩⟩
        rcases List.mem_append.mp member with digit | behind
        · exact inNumber_of_isDigit (later d digit)
        · exact inMark d behind

theorem integerChars_eq (n : ℤ) :
    integerChars n = Double.signChars (decide (n < 0)) ++ digitChars n.natAbs := by
  rw [integerChars, Double.signChars]
  split <;> rename_i sign <;> simp [sign]

end Decimal

namespace Double

theorem exists_shape {x : Float} (finite : isFinite x = true) :
    ∃ negative mantissa exponent, shape x = .finite negative mantissa exponent := by
  rw [isFinite] at finite
  split at finite
  · exact ⟨_, _, _, ‹_›⟩
  · cases finite

/-- The bits of a finite double are put together from its shape: a mantissa that is not full stands
behind the exponent zero. -/
theorem bits_of_finite {x : Float} {negative : Bool} {mantissa : ℕ} {exponent : ℤ}
    (finite : shape x = .finite negative mantissa exponent) :
    x.toBits.toNat = (if negative = true then 2 ^ 63 else 0) +
      if mantissa < 2 ^ 52 then mantissa
      else mantissa - 2 ^ 52 + 2 ^ 52 * (exponent + 1075).toNat := by
  have bound := x.toBits.toNat_lt
  rw [shape_eq] at finite
  split at finite
  · split at finite <;> cases finite
  · split at finite
    · cases finite
      simp only [decide_eq_true_eq]
      split <;> split <;> omega
    · cases finite
      simp only [decide_eq_true_eq]
      split <;> split <;> omega

/-- A finite double is given by its shape. -/
theorem eq_of_shape_eq {x y : Float} {negative : Bool} {mantissa : ℕ} {exponent : ℤ}
    (first : shape x = .finite negative mantissa exponent)
    (second : shape y = .finite negative mantissa exponent) : x = y :=
  eq_of_bits_eq (by rw [bits_of_finite first, bits_of_finite second])

theorem canonical_of_finite {x : Float} {negative : Bool} {mantissa : ℕ} {exponent : ℤ}
    (finite : shape x = .finite negative mantissa exponent) :
    (Shape.finite negative mantissa exponent).Canonical := by
  rw [← finite]
  exact (shape_canonical (by rw [finite]; exact nofun)).1

/-- The JSON of a finite double is the notation of its shortest decimal behind its sign. -/
theorem exists_isNotation {x : Float} {negative : Bool} {mantissa : ℕ} {exponent : ℤ}
    (finite : shape x = .finite negative mantissa exponent) :
    ∃ body, jsonChars x = signChars negative ++ body ∧
      (Decimal.shortest .even mantissa exponent).IsNotation body := by
  rw [jsonChars, finite]
  dsimp only
  split
  · exact ⟨_, rfl, Decimal.isNotation_pointed _⟩
  · exact ⟨_, rfl, Decimal.isNotation_scientific _⟩

/-- A digit is no sign, so a sign is seen in front of it. -/
theorem sign_cancel {a b : Bool} {xs ys : List Char}
    (first : ∃ c rest, xs = c :: rest ∧ Text.isDigit c = true)
    (second : ∃ c rest, ys = c :: rest ∧ Text.isDigit c = true)
    (same : signChars a ++ xs = signChars b ++ ys) : a = b ∧ xs = ys := by
  obtain ⟨c, rest, rfl, digit⟩ := first
  obtain ⟨d, others, rfl, other⟩ := second
  cases a <;> cases b <;> simp only [signChars, if_true, if_false, Bool.false_eq_true,
    List.nil_append, List.cons_append, List.cons.injEq, true_and] at same
  · exact ⟨rfl, List.cons_eq_cons.mpr same⟩
  · exact absurd (same.1 ▸ digit) (by decide)
  · exact absurd (same.1 ▸ other) (by decide)
  · exact ⟨rfl, List.cons_eq_cons.mpr same⟩

/-- Different finite doubles have different JSON. -/
theorem jsonChars_injective {x y : Float} (first : isFinite x = true) (second : isFinite y = true)
    (same : jsonChars x = jsonChars y) : x = y := by
  obtain ⟨xSign, m, e, xShape⟩ := exists_shape first
  obtain ⟨ySign, n, f, yShape⟩ := exists_shape second
  obtain ⟨xBody, xWritten, xNotation⟩ := exists_isNotation xShape
  obtain ⟨yBody, yWritten, yNotation⟩ := exists_isNotation yShape
  rw [xWritten, yWritten] at same
  obtain ⟨rfl, rfl⟩ := sign_cancel xNotation.digit yNotation.digit same
  have numbers := xNotation.denotes.symm.trans yNotation.denotes
  obtain ⟨rfl, rfl⟩ := Decimal.shortest_injective (canonical_of_finite xShape)
    (canonical_of_finite yShape) numbers
  exact eq_of_shape_eq xShape yShape

end Double

end RecordQuery
