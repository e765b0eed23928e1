import RecordQuery.Proofs.Decimal.Layout
import RecordQuery.Proofs.Json.Injective

namespace RecordQuery.Json

mutual

/-- A double that is not finite has the JSON of null. -/
theorem compactChars_written : (v : Value) → compactChars (written v) = compactChars v
  | .null | .bool _ | .int _ | .text _ => rfl
  | .float x => by
    rw [written]
    cases shape : Double.shape x <;>
      simp [Double.isFinite, shape, compactChars, scalarChars, Double.jsonChars]
  | .array items => by rw [written, compactChars, compactChars, compactItems_written items]
  | .record fields => by rw [written, compactChars, compactChars, compactFields_written fields]

theorem compactItems_written :
    (items : List Value) → compactItems (writtenItems items) = compactItems items
  | [] => rfl
  | [v] => compactChars_written v
  | v :: w :: rest => by
    have first := compactChars_written v
    have later := compactItems_written (w :: rest)
    rw [writtenItems, writtenItems, compactItems, compactItems, first, ← writtenItems, later]

theorem compactFields_written : (fields : List (String × Value)) →
    compactFields (writtenFields fields) = compactFields fields
  | [] => rfl
  | [(k, v)] => by rw [writtenFields, writtenFields, compactFields, compactFields, compactChars_written v]
  | (k, v) :: (l, w) :: rest => by
    have first := compactChars_written v
    have later := compactFields_written ((l, w) :: rest)
    rw [writtenFields, writtenFields, compactFields, compactFields, first, ← writtenFields, later]

end

theorem writtenItems_eq (items : List Value) : writtenItems items = items.map written := by
  induction items with
  | nil => rfl
  | cons v rest ih => rw [writtenItems, ih, List.map_cons]

theorem writtenFields_eq (fields : List (String × Value)) :
    writtenFields fields = fields.map fun field => (field.1, written field.2) := by
  induction fields with
  | nil => rfl
  | cons field rest ih => rw [writtenFields, ih, List.map_cons]

theorem null_of_not_finite {x : Float} (other : Double.isFinite x = false) :
    compactChars (.float x) = compactChars .null ∧ written (.float x) = written .null := by
  have null : written (.float x) = .null := by rw [written, other]; rfl
  exact ⟨by rw [← compactChars_written, null], null⟩

/-- Every value has the JSON of one that is no double unless it is finite. -/
theorem exists_settled (v : Value) :
    ∃ w, compactChars w = compactChars v ∧ written w = written v ∧
      ∀ x, w = .float x → Double.isFinite x = true := by
  cases v with
  | float x =>
    cases finite : Double.isFinite x with
    | true => exact ⟨.float x, rfl, rfl, fun y same => Value.float.inj same ▸ finite⟩
    | false =>
      obtain ⟨chars, null⟩ := null_of_not_finite finite
      exact ⟨.null, chars.symm, null.symm, nofun⟩
  | _ => exact ⟨_, rfl, rfl, nofun⟩

/-- What the first character of a value shows of it: digits and the minus belong to numbers, and
two letters to truth values. -/
def leadOf : Value → Char
  | .null => 'n'
  | .bool _ => 't'
  | .int _ | .float _ => '0'
  | .text _ => '"'
  | .array _ => '['
  | .record _ => '\x7b'

def leadChar (c : Char) : Char :=
  if Text.isDigit c || c == '-' then '0' else if c == 'f' then 't' else c

/-- A number begins with a digit behind its sign, and all of it belongs to numbers. -/
structure IsNumber (cs : List Char) : Prop where
  lead : ∃ c rest, cs = c :: rest ∧ leadChar c = '0'
  within : ∀ c ∈ cs, Decimal.inNumber c = true

theorem isNumber_signed {negative : Bool} {body : List Char}
    (digit : ∃ c rest, body = c :: rest ∧ Text.isDigit c = true)
    (within : ∀ c ∈ body, Decimal.inNumber c = true) :
    IsNumber (Double.signChars negative ++ body) := by
  obtain ⟨c, rest, rfl, first⟩ := digit
  cases negative with
  | false => exact ⟨⟨c, rest, rfl, by simp [leadChar, first]⟩, within⟩
  | true => exact ⟨⟨'-', c :: rest, rfl, rfl⟩, List.forall_mem_cons.mpr ⟨rfl, within⟩⟩

theorem isNumber_integerChars (n : Int) : IsNumber (Decimal.integerChars n) := by
  rw [Decimal.integerChars_eq]
  exact isNumber_signed (Decimal.exists_digit_digitChars _) fun c member =>
    Decimal.inNumber_of_isDigit (List.all_eq_true.mp (Decimal.all_digitChars _) c member)

theorem integerChars_injective {m n : Int}
    (same : Decimal.integerChars m = Decimal.integerChars n) : m = n := by
  rw [Decimal.integerChars_eq, Decimal.integerChars_eq] at same
  obtain ⟨sign, digits⟩ :=
    Double.sign_cancel (Decimal.exists_digit_digitChars _) (Decimal.exists_digit_digitChars _) same
  have size := congrArg Decimal.valueOf digits
  rw [Decimal.valueOf_digitChars, Decimal.valueOf_digitChars] at size
  have signs : m < 0 ↔ n < 0 := decide_eq_decide.mp sign
  omega

theorem isNumber_jsonChars {x : Float} (finite : Double.isFinite x = true) :
    IsNumber (Double.jsonChars x) := by
  obtain ⟨negative, mantissa, exponent, shape⟩ := Double.exists_shape finite
  obtain ⟨body, written, spelled⟩ := Double.exists_isNotation shape
  rw [written]
  exact isNumber_signed spelled.digit spelled.within

/-- A double has a point or an exponent in its JSON, which an integer never has. -/
theorem integerChars_ne_jsonChars (n : Int) {x : Float} (finite : Double.isFinite x = true) :
    Decimal.integerChars n ≠ Double.jsonChars x := by
  intro same
  obtain ⟨negative, mantissa, exponent, shape⟩ := Double.exists_shape finite
  obtain ⟨body, written, spelled⟩ := Double.exists_isNotation shape
  rw [Decimal.integerChars_eq, written] at same
  obtain ⟨-, rfl⟩ := Double.sign_cancel (Decimal.exists_digit_digitChars _) spelled.digit same
  have digits := List.all_eq_true.mp (Decimal.all_digitChars n.natAbs)
  rcases spelled.marked with point | mark
  · exact absurd (digits _ point) (by decide)
  · exact absurd (digits _ mark) (by decide)

/-- Whether a text goes on with a character that belongs to no number. -/
def StopsNumber (s : List Char) : Prop :=
  ∀ c, s.head? = some c → Decimal.inNumber c = false

/-- A number is seen in front of all that does not go on with it. -/
theorem number_cancel {xs ys s t : List Char} (first : ∀ c ∈ xs, Decimal.inNumber c = true)
    (second : ∀ c ∈ ys, Decimal.inNumber c = true) (stopped : StopsNumber s)
    (other : StopsNumber t) (same : xs ++ s = ys ++ t) : xs = ys ∧ s = t := by
  have taken {xs s : List Char} (all : ∀ c ∈ xs, Decimal.inNumber c = true)
      (stops : StopsNumber s) : (xs ++ s).takeWhile Decimal.inNumber = xs := by
    rw [List.takeWhile_append_of_pos all]
    cases s with
    | nil => exact List.append_nil xs
    | cons c s => rw [List.takeWhile_cons, stops c rfl]; exact List.append_nil xs
  have front : xs = ys := by rw [← taken first stopped, same, taken second other]
  exact ⟨front, List.append_cancel_left (front ▸ same)⟩

theorem textChars_cancel {a b : String} {s t : List Char}
    (same : textChars a ++ s = textChars b ++ t) : a = b ∧ s = t := by
  simp only [textChars, List.cons_append, List.append_assoc, List.nil_append, List.cons.injEq,
    true_and] at same
  have read := congrArg readText same
  rw [readText_escaped, readText_escaped] at read
  obtain ⟨texts, rest⟩ := Prod.mk.inj (Option.some.inj read)
  exact ⟨String.toList_inj.mp texts, rest⟩

theorem exists_lead {v : Value} (settled : ∀ x, v = .float x → Double.isFinite x = true) :
    ∃ c rest, compactChars v = c :: rest ∧ leadChar c = leadOf v := by
  cases v with
  | null => exact ⟨_, _, rfl, rfl⟩
  | bool b => cases b <;> exact ⟨_, _, rfl, rfl⟩
  | int n => exact (isNumber_integerChars n.toInt).lead
  | float x => exact (isNumber_jsonChars (settled x rfl)).lead
  | text s => exact ⟨_, _, rfl, rfl⟩
  | array items => exact ⟨_, _, rfl, rfl⟩
  | record fields => exact ⟨_, _, rfl, rfl⟩

/-- The characters of a field. -/
def charsOfField (field : String × Value) : List Char :=
  textChars field.1 ++ ':' :: compactChars field.2

theorem compactItems_eq (items : List Value) :
    compactItems items = separated compactChars ',' items :=
  eq_separated rfl (fun _ => rfl) (fun _ _ _ => rfl) items

theorem compactFields_eq (fields : List (String × Value)) :
    compactFields fields = separated charsOfField ',' fields :=
  eq_separated rfl (fun _ => rfl) (fun _ _ _ => rfl) fields

theorem stopsNumber_cons {c : Char} (other : Decimal.inNumber c = false) (s : List Char) :
    StopsNumber (c :: s) := by
  rintro d ⟨⟩
  exact other

/-- No value begins with the bracket that closes an array. -/
theorem leadOf_ne (v : Value) : leadChar ']' ≠ leadOf v := by
  unfold leadOf
  split <;> decide

theorem separates_compactItems : Separates compactChars StopsNumber ',' ']' where
  apart := by decide
  atSeparator := stopsNumber_cons rfl
  atClose := stopsNumber_cons rfl
  notFirst v s t same := by
    obtain ⟨w, chars, -, settled⟩ := exists_settled v
    obtain ⟨c, rest, first, lead⟩ := exists_lead settled
    rw [← chars, first] at same
    rw [List.head_eq_of_cons_eq same] at lead
    exact absurd lead (leadOf_ne w)

theorem separates_compactFields : Separates charsOfField StopsNumber ',' '\x7d' where
  apart := by decide
  atSeparator := stopsNumber_cons rfl
  atClose := stopsNumber_cons rfl
  notFirst field s t same := absurd (List.head_eq_of_cons_eq same) (by decide)

/-- Only values that begin alike have to be told apart. -/
theorem cancels_of_lead {v : Value} (settled : ∀ x, v = .float x → Double.isFinite x = true)
    (alike : ∀ w s t, (∀ x, w = .float x → Double.isFinite x = true) → leadOf v = leadOf w →
      StopsNumber s → StopsNumber t → compactChars v ++ s = compactChars w ++ t →
      written v = written w ∧ s = t) : Cancels compactChars written StopsNumber v := by
  intro u s t stopped other same
  obtain ⟨w, chars, forms, finite⟩ := exists_settled u
  rw [← chars] at same
  rw [← forms]
  obtain ⟨c, rest, first, lead⟩ := exists_lead settled
  obtain ⟨d, others, second, leadOther⟩ := exists_lead finite
  refine alike w s t finite ?_ stopped other same
  rw [first, second] at same
  rw [← lead, ← leadOther, List.head_eq_of_cons_eq same]

theorem null_cancels : Cancels compactChars written StopsNumber .null := by
  refine cancels_of_lead nofun fun w s t _ lead _ _ same => ?_
  cases w with
  | null => exact ⟨rfl, List.append_cancel_left same⟩
  | _ => simp [leadOf] at lead

theorem bool_cancels (b : Bool) : Cancels compactChars written StopsNumber (.bool b) := by
  refine cancels_of_lead nofun fun w s t _ lead _ _ same => ?_
  cases w with
  | bool c =>
    cases b <;> cases c <;> simp [compactChars, scalarChars] at same <;> simp [same]
  | _ => simp [leadOf] at lead

theorem int_cancels (n : Int64) : Cancels compactChars written StopsNumber (.int n) := by
  refine cancels_of_lead nofun fun w s t settled lead stopped other same => ?_
  have within := (isNumber_integerChars n.toInt).within
  cases w with
  | int m =>
    obtain ⟨chars, rest⟩ :=
      number_cancel within (isNumber_integerChars m.toInt).within stopped other same
    exact ⟨by rw [Int64.toInt_inj.mp (integerChars_injective chars)], rest⟩
  | float x =>
    have finite := settled x rfl
    obtain ⟨chars, -⟩ := number_cancel within (isNumber_jsonChars finite).within stopped other same
    exact absurd chars (integerChars_ne_jsonChars n.toInt finite)
  | _ => simp [leadOf] at lead

theorem float_cancels (x : Float) : Cancels compactChars written StopsNumber (.float x) := by
  cases finite : Double.isFinite x with
  | false =>
    obtain ⟨chars, null⟩ := null_of_not_finite finite
    intro w s t stopped other same
    rw [null]
    exact null_cancels w s t stopped other (chars ▸ same)
  | true =>
    have within := (isNumber_jsonChars finite).within
    refine cancels_of_lead (fun y same => Value.float.inj same ▸ finite)
      fun w s t settled lead stopped other same => ?_
    cases w with
    | int n =>
      obtain ⟨chars, -⟩ :=
        number_cancel within (isNumber_integerChars n.toInt).within stopped other same
      exact absurd chars.symm (integerChars_ne_jsonChars n.toInt finite)
    | float y =>
      obtain ⟨chars, rest⟩ :=
        number_cancel within (isNumber_jsonChars (settled y rfl)).within stopped other same
      exact ⟨by rw [Double.jsonChars_injective finite (settled y rfl) chars], rest⟩
    | _ => simp [leadOf] at lead

theorem text_cancels (a : String) : Cancels compactChars written StopsNumber (.text a) := by
  refine cancels_of_lead nofun fun w s t _ lead _ _ same => ?_
  cases w with
  | text b =>
    obtain ⟨rfl, rest⟩ := textChars_cancel same
    exact ⟨rfl, rest⟩
  | _ => simp [leadOf] at lead

mutual

/-- The JSON of a value shows what is written of the value, and where it ends. -/
theorem written_cancels : (v : Value) → Cancels compactChars written StopsNumber v
  | .null => null_cancels
  | .bool b => bool_cancels b
  | .int n => int_cancels n
  | .float x => float_cancels x
  | .text s => text_cancels s
  | .array items => by
    refine cancels_of_lead nofun fun w s t _ lead _ _ same => ?_
    cases w with
    | array others =>
      simp only [compactChars, compactItems_eq, List.cons_append, List.append_assoc,
        List.nil_append, List.cons.injEq, true_and] at same
      obtain ⟨keys, rest⟩ := separates_compactItems.cancel (writtenItems_cancel items) same
      exact ⟨by rw [written, written, writtenItems_eq, writtenItems_eq, keys], rest⟩
    | _ => simp [leadOf] at lead
  | .record fields => by
    refine cancels_of_lead nofun fun w s t _ lead _ _ same => ?_
    cases w with
    | record others =>
      simp only [compactChars, compactFields_eq, List.cons_append, List.append_assoc,
        List.nil_append, List.cons.injEq, true_and] at same
      obtain ⟨keys, rest⟩ := separates_compactFields.cancel (writtenFields_cancel fields) same
      exact ⟨by rw [written, written, writtenFields_eq, writtenFields_eq, keys], rest⟩
    | _ => simp [leadOf] at lead

theorem writtenItems_cancel : (items : List Value) →
    ∀ v ∈ items, Cancels compactChars written StopsNumber v
  | [], _, member => nomatch member
  | v :: rest, u, member => by
    rcases List.mem_cons.mp member with same | later
    · exact same ▸ written_cancels v
    · exact writtenItems_cancel rest u later

theorem writtenFields_cancel : (fields : List (String × Value)) → ∀ field ∈ fields,
    Cancels charsOfField (fun field => (field.1, written field.2)) StopsNumber field
  | [], _, member => nomatch member
  | (key, v) :: rest, field, member => by
    rcases List.mem_cons.mp member with rfl | later
    · intro other s t stopped stoppedOther same
      rw [charsOfField, charsOfField, List.append_assoc, List.append_assoc] at same
      obtain ⟨keys, after⟩ := textChars_cancel same
      obtain ⟨values, rest⟩ :=
        written_cancels v other.2 s t stopped stoppedOther (List.tail_eq_of_cons_eq after)
      exact ⟨Prod.ext keys values, rest⟩
    · exact writtenFields_cancel rest field later

end

/-- Values have the same JSON exactly when the same is written of both. -/
theorem write_eq_iff {v w : Value} : write v = write w ↔ written v = written w := by
  constructor
  · intro same
    have chars : compactChars v ++ [] = compactChars w ++ [] :=
      congrArg (· ++ []) (String.ofList_injective same)
    exact (written_cancels v w [] [] nofun nofun chars).1
  · intro same
    rw [write, write, ← compactChars_written v, ← compactChars_written w, same]

/-- All that there is to a value without doubles is written. -/
theorem written_eq_self {v : Value} (exact : v.WithoutDoubles) : written v = v := by
  induction exact with
  | null | bool _ | int _ | text _ => rfl
  | array _ ih => rw [written, writtenItems_eq, List.map_congr_left ih, List.map_id']
  | @record fields _ ih =>
    have same : ∀ field ∈ fields, (field.1, written field.2) = field := fun field member =>
      Prod.ext rfl (ih field member)
    rw [written, writtenFields_eq, List.map_congr_left same, List.map_id']

/-- Values without doubles have different JSON unless they are the same. -/
theorem write_injective {v w : Value} (first : v.WithoutDoubles) (second : w.WithoutDoubles)
    (same : write v = write w) : v = w := by
  rw [← written_eq_self first, ← written_eq_self second, write_eq_iff.mp same]

end RecordQuery.Json
