import RecordQuery.Proofs.Json.Token

namespace RecordQuery

/-- A value that no double occurs in, so that its JSON keeps everything there is to it. -/
inductive Value.WithoutDoubles : Value → Prop
  | null : WithoutDoubles .null
  | bool (b : Bool) : WithoutDoubles (.bool b)
  | int (n : Int64) : WithoutDoubles (.int n)
  | text (s : String) : WithoutDoubles (.text s)
  | array {items : List Value} : (∀ v ∈ items, WithoutDoubles v) → WithoutDoubles (.array items)
  | record {fields : List (String × Value)} :
      (∀ field ∈ fields, WithoutDoubles field.2) → WithoutDoubles (.record fields)

namespace Json

mutual

/-- The tokens of the JSON of a value. -/
def valueTokens : Value → List Token
  | .null => [.null]
  | .bool b => [.bool b]
  | .int n => [.number (.int n)]
  | .float x => [.number (.float x)]
  | .text s => [.text s]
  | .array items => .openArray :: itemTokens items ++ [.closeArray]
  | .record fields => .openObject :: fieldTokens fields ++ [.closeObject]

def itemTokens : List Value → List Token
  | [] => []
  | [v] => valueTokens v
  | v :: w :: rest => valueTokens v ++ .comma :: itemTokens (w :: rest)

def fieldTokens : List (String × Value) → List Token
  | [] => []
  | [(k, v)] => .text k :: .colon :: valueTokens v
  | (k, v) :: field :: rest =>
    .text k :: .colon :: valueTokens v ++ .comma :: fieldTokens (field :: rest)

end

/-- A token that is read off the front of a text is the first one of the text. -/
theorem tokens?_append {c : Char} {written s : List Char} {token : Token}
    (solid : isSpace c = false) (read : readToken (c :: written ++ s) = some (token, s)) :
    tokens? (c :: written ++ s) = (tokens? s).map (token :: ·) := by
  have shorter : s.length < (c :: (written ++ s)).length := by
    rw [List.length_cons, List.length_append]
    omega
  rw [List.cons_append, tokens?]
  simp only [solid, Bool.false_eq_true, if_false]
  rw [← List.cons_append, read]
  exact dif_pos shorter

theorem tokens?_textChars (t : String) (s : List Char) :
    tokens? (textChars t ++ s) = (tokens? s).map (.text t :: ·) := by
  refine tokens?_append rfl ?_
  change (readText (t.toList.flatMap escapeChar ++ ['"'] ++ s)).map _ = _
  rw [List.append_assoc, List.singleton_append, readText_escaped]
  exact congrArg (fun text => some (Token.text text, s)) String.ofList_toList

theorem readToken_digit {d : Char} {rest : List Char} (digit : Text.isDigit d = true) :
    readToken (d :: rest) =
      (readNumber false (d :: rest)).map fun (n, left) => (.number n, left) := by
  unfold readToken
  split <;> first | rfl | (rename_i same; cases same; cases digit)

theorem isSpace_of_isDigit {d : Char} (digit : Text.isDigit d = true) : isSpace d = false := by
  simp only [Text.isDigit, Bool.and_eq_true, decide_eq_true_eq] at digit
  simp only [isSpace, Bool.or_eq_false_iff, beq_eq_false_iff_ne]
  refine ⟨⟨⟨?_, ?_⟩, ?_⟩, ?_⟩ <;> rintro rfl <;> exact absurd digit.1 (by decide)

theorem int64?_toInt (n : Int64) : int64? n.toInt = some n := by
  rw [int64?, if_pos ⟨n.minValue_le_toInt, n.toInt_le⟩, Int64.ofInt_toInt]

theorem tokens?_integerChars (n : Int64) {s : List Char} (ends : EndsNumber s) :
    tokens? (Decimal.integerChars n.toInt ++ s) = (tokens? s).map (.number (.int n) :: ·) := by
  have small : n.toInt.natAbs < Nat.pow 2 64 := by
    have above := n.toInt_lt
    have below := n.le_toInt
    change n.toInt.natAbs < 18446744073709551616
    omega
  unfold Decimal.integerChars
  split
  · rename_i negative
    refine tokens?_append rfl ?_
    rw [List.cons_append, readToken, readNumber_digitChars ends small (n := n)]
    · rfl
    · intro _
      omega
    · rw [if_pos rfl, show -(n.toInt.natAbs : Int) = n.toInt by omega, int64?_toInt]
  · rename_i positive
    have read := @readNumber_digitChars false n.toInt.natAbs n s ends small
      (fun absent => absurd absent Bool.false_ne_true)
      (by rw [if_neg Bool.false_ne_true, show (n.toInt.natAbs : Int) = n.toInt by omega,
        int64?_toInt])
    have all := Decimal.all_digitChars n.toInt.natAbs
    cases written : Decimal.digitChars n.toInt.natAbs with
    | nil => exact absurd written (Decimal.digitChars_ne_nil _)
    | cons d digits =>
      rw [written, List.all_cons, Bool.and_eq_true] at all
      rw [written, List.cons_append] at read
      refine tokens?_append (isSpace_of_isDigit all.1) ?_
      rw [List.cons_append, readToken_digit all.1, read]
      rfl

theorem endsNumber_nil : EndsNumber [] :=
  nofun

theorem endsNumber_cons {c : Char}
    (other : Text.isDigit c = false ∧ c ≠ '.' ∧ c ≠ 'e' ∧ c ≠ 'E') (s : List Char) :
    EndsNumber (c :: s) := by
  rintro d first
  cases first
  exact other

/-- Characters that are read as tokens, whatever follows them, as long as it ends a number. -/
def Reads (cs : List Char) (ts : List Token) : Prop :=
  ∀ s, EndsNumber s → tokens? (cs ++ s) = (tokens? s).map (ts ++ ·)

namespace Reads

variable {cs ds : List Char} {ts us : List Token}

theorem nil : Reads [] [] := by
  intro s _
  simp

theorem append (first : Reads cs ts) (second : Reads ds us)
    (ends : ∀ s, EndsNumber s → EndsNumber (ds ++ s)) : Reads (cs ++ ds) (ts ++ us) := by
  intro s follows
  rw [List.append_assoc, first _ (ends s follows), second s follows, Option.map_map]
  simp only [Function.comp_def, List.append_assoc]

theorem blank {c : Char} (space : isSpace c = true) (reads : Reads cs ts) :
    Reads (c :: cs) ts := by
  intro s follows
  rw [List.cons_append, tokens?, if_pos space, reads s follows]

/-- A token that is known by its first character, in front of others. -/
theorem sign {c : Char} {t : Token} (solid : isSpace c = false)
    (read : ∀ s, readToken (c :: s) = some (t, s)) (reads : Reads cs ts) :
    Reads (c :: cs) (t :: ts) := by
  intro s follows
  have first := @tokens?_append c [] (cs ++ s) t solid (read _)
  rw [List.cons_append, ← List.nil_append (cs ++ s), ← List.cons_append, first, reads s follows,
    Option.map_map]
  rfl

theorem comma (reads : Reads cs ts) : Reads (',' :: cs) (.comma :: ts) :=
  reads.sign rfl fun _ => rfl

theorem field (key : String) (reads : Reads cs ts) :
    Reads (textChars key ++ ':' :: cs) (.text key :: .colon :: ts) := by
  intro s follows
  have colon : Reads (':' :: cs) (.colon :: ts) := reads.sign rfl fun _ => rfl
  rw [List.append_assoc, tokens?_textChars, colon s follows, Option.map_map]
  rfl

/-- What is read stands between brackets. -/
theorem bracketed {c d : Char} {t u : Token} (reads : Reads cs ts) (opens : isSpace c = false)
    (readOpen : ∀ s, readToken (c :: s) = some (t, s)) (closes : isSpace d = false)
    (readClose : ∀ s, readToken (d :: s) = some (u, s))
    (other : Text.isDigit d = false ∧ d ≠ '.' ∧ d ≠ 'e' ∧ d ≠ 'E') :
    Reads (c :: cs ++ [d]) (t :: ts ++ [u]) :=
  (reads.append (nil.sign closes readClose) fun _ _ => endsNumber_cons other _).sign opens readOpen

theorem array (reads : Reads cs ts) :
    Reads ('[' :: cs ++ [']']) (.openArray :: ts ++ [.closeArray]) :=
  reads.bracketed rfl (fun _ => rfl) rfl (fun _ => rfl) (by decide)

theorem record (reads : Reads cs ts) :
    Reads ('\x7b' :: cs ++ ['\x7d']) (.openObject :: ts ++ [.closeObject]) :=
  reads.bracketed rfl (fun _ => rfl) rfl (fun _ => rfl) (by decide)

/-- One more item in front of others. -/
theorem next (first : Reads cs ts) (later : Reads ds us) :
    Reads (cs ++ ',' :: ds) (ts ++ .comma :: us) :=
  first.append later.comma fun _ _ => endsNumber_cons (by decide) _

end Reads

/-- The notation of a value that is neither a double nor a container is read as its token. -/
theorem reads_scalarChars {v : Value} (exact : v.WithoutDoubles)
    (scalar : ∀ items fields, v ≠ .array items ∧ v ≠ .record fields) :
    Reads (scalarChars v) (valueTokens v) := by
  cases exact with
  | null => exact fun s _ => @tokens?_append 'n' ['u', 'l', 'l'] s .null rfl rfl
  | bool b =>
    cases b
    · exact fun s _ => @tokens?_append 'f' ['a', 'l', 's', 'e'] s (.bool false) rfl rfl
    · exact fun s _ => @tokens?_append 't' ['r', 'u', 'e'] s (.bool true) rfl rfl
  | int n => exact fun s ends => tokens?_integerChars n ends
  | text t => exact fun s _ => tokens?_textChars t s
  | array all => exact absurd rfl (scalar _ []).1
  | record all => exact absurd rfl (scalar [] _).2

theorem reads_compactItems {items : List Value}
    (reads : ∀ v ∈ items, Reads (compactChars v) (valueTokens v)) :
    Reads (compactItems items) (itemTokens items) := by
  induction items with
  | nil => exact .nil
  | cons v rest ih =>
    obtain ⟨first, others⟩ := List.forall_mem_cons.mp reads
    cases rest with
    | nil => exact first
    | cons w rest => exact first.next (ih others)

theorem reads_compactFields {fields : List (String × Value)}
    (reads : ∀ field ∈ fields, Reads (compactChars field.2) (valueTokens field.2)) :
    Reads (compactFields fields) (fieldTokens fields) := by
  induction fields with
  | nil => exact .nil
  | cons field rest ih =>
    obtain ⟨key, v⟩ := field
    obtain ⟨first, others⟩ := List.forall_mem_cons.mp reads
    cases rest with
    | nil => exact first.field key
    | cons field rest =>
      have next := (Reads.field key first).next (ih others)
      exact next

/-- The JSON of a value without doubles is read as the tokens of the value. -/
theorem reads_compactChars {v : Value} (exact : v.WithoutDoubles) :
    Reads (compactChars v) (valueTokens v) := by
  induction exact with
  | array _ ih => exact (reads_compactItems ih).array
  | record _ ih => exact (reads_compactFields ih).record
  | null => exact reads_scalarChars .null fun _ _ => ⟨nofun, nofun⟩
  | bool b => exact reads_scalarChars (.bool b) fun _ _ => ⟨nofun, nofun⟩
  | int n => exact reads_scalarChars (.int n) fun _ _ => ⟨nofun, nofun⟩
  | text t => exact reads_scalarChars (.text t) fun _ _ => ⟨nofun, nofun⟩

theorem reads_newline {cs : List Char} {ts : List Token} (reads : Reads cs ts) (depth : Nat) :
    Reads (newline depth ++ cs) ts := by
  have blanks : ∀ n, Reads (List.replicate n ' ' ++ cs) ts := by
    intro n
    induction n with
    | zero => exact reads
    | succ n ih => exact ih.blank rfl
  exact (blanks (2 * depth)).blank rfl

/-- A new line in front of a closing bracket belongs to no token. -/
theorem Reads.closed {cs : List Char} {ts : List Token} (reads : Reads cs ts) (depth : Nat) :
    Reads (cs ++ newline depth) ts := by
  have nothing := reads_newline .nil depth
  rw [List.append_nil] at nothing
  have both := reads.append nothing fun _ _ => endsNumber_cons (by decide) _
  rwa [List.append_nil] at both

theorem reads_prettyItems {depth : Nat} {items : List Value}
    (reads : ∀ v ∈ items, Reads (prettyChars depth v) (valueTokens v)) :
    Reads (prettyItems depth items) (itemTokens items) := by
  induction items with
  | nil => exact .nil
  | cons v rest ih =>
    obtain ⟨first, others⟩ := List.forall_mem_cons.mp reads
    cases rest with
    | nil => exact reads_newline first depth
    | cons w rest => exact (reads_newline first depth).next (ih others)

theorem reads_prettyFields {depth : Nat} {fields : List (String × Value)}
    (reads : ∀ field ∈ fields, Reads (prettyChars depth field.2) (valueTokens field.2)) :
    Reads (prettyFields depth fields) (fieldTokens fields) := by
  induction fields with
  | nil => exact .nil
  | cons field rest ih =>
    obtain ⟨key, v⟩ := field
    obtain ⟨first, others⟩ := List.forall_mem_cons.mp reads
    have spaced : Reads (' ' :: prettyChars depth v) (valueTokens v) := first.blank rfl
    have line := reads_newline (spaced.field key) depth
    cases rest with
    | nil => rwa [prettyFields, List.append_assoc]
    | cons field rest =>
      have next := line.next (ih others)
      rw [prettyFields, List.append_assoc (newline depth)]
      exact next

/-- The lines and indents of a value without doubles change nothing in how it is read. -/
theorem reads_prettyChars {v : Value} (exact : v.WithoutDoubles) (depth : Nat) :
    Reads (prettyChars depth v) (valueTokens v) := by
  induction exact generalizing depth with
  | @array items _ ih =>
    cases items with
    | nil => exact Reads.nil.array
    | cons v rest =>
      have inside := (reads_prettyItems fun w member => ih w member (depth + 1)).closed depth
      exact inside.array
  | @record fields _ ih =>
    cases fields with
    | nil => exact Reads.nil.record
    | cons field rest =>
      have inside := (reads_prettyFields fun w member => ih w member (depth + 1)).closed depth
      exact inside.record
  | null => exact reads_scalarChars .null fun _ _ => ⟨nofun, nofun⟩
  | bool b => exact reads_scalarChars (.bool b) fun _ _ => ⟨nofun, nofun⟩
  | int n => exact reads_scalarChars (.int n) fun _ _ => ⟨nofun, nofun⟩
  | text t => exact reads_scalarChars (.text t) fun _ _ => ⟨nofun, nofun⟩

end Json

end RecordQuery
