import RecordQuery.Proofs.Double.Order
import RecordQuery.Value.Order

namespace RecordQuery

theorem Double.compare?_swap (x y : Float) :
    Double.compare? y x = (Double.compare? x y).map Ordering.swap := by
  rw [Double.compare?_eq_unpacked, Double.compare?_eq_unpacked, Double.unpacked_compare_swap]

theorem Number.compare?_swap (a b : Number) : b.compare? a = (a.compare? b).map Ordering.swap := by
  rcases a with m | x <;> rcases b with n | y
  · exact congrArg some Std.OrientedOrd.eq_swap
  all_goals exact Double.compare?_swap _ _

namespace Text

theorem compareChars_swap (as bs : List Char) : (compareChars as bs).swap = compareChars bs as := by
  induction as generalizing bs with
  | nil => cases bs <;> rfl
  | cons a as ih =>
    cases bs with
    | nil => rfl
    | cons b bs =>
      rw [compareChars, compareChars, Ordering.swap_then, ih, ← Std.OrientedOrd.eq_swap]

theorem compareChars_eq_iff {as bs : List Char} : compareChars as bs = .eq ↔ as = bs := by
  induction as generalizing bs with
  | nil => cases bs <;> simp [compareChars]
  | cons a as ih =>
    cases bs with
    | nil => simp [compareChars]
    | cons b bs =>
      rw [compareChars, Ordering.then_eq_eq, ih, Nat.compare_eq_eq, Char.toNat_inj, List.cons.injEq]

end Text

namespace Value

/-- The order of two values that are texts and not both numbers. -/
def textOrder? : Value → Value → Option Ordering
  | .text s, .text t => some (compareTexts s t)
  | _, _ => none

/-- The order of two values by the numbers that they are, and as texts if one of them is none. -/
def plainOrder? (a b : Value) : Option Ordering :=
  match a.number?, b.number? with
  | some x, some y => x.compare? y
  | _, _ => textOrder? a b

theorem plainOrder?_none {a b : Value} (noNumber : a.number? = none ∨ b.number? = none) :
    a.plainOrder? b = textOrder? a b := by
  unfold plainOrder?
  rcases noNumber with first | second
  · rw [first]
  · rw [second]
    cases a.number? <;> rfl

theorem compare?_eq_plainOrder? {a b : Value} (bools : ¬ (a.rank = 1 ∧ b.rank = 1)) :
    a.compare? b = a.plainOrder? b := by
  cases b with
  | null =>
    rw [plainOrder?_none (Or.inr rfl)]
    cases a <;> rfl
  | bool b =>
    cases a with
    | bool a => exact absurd ⟨rfl, rfl⟩ bools
    | _ => rfl
  | _ => cases a <;> rfl

theorem textOrder?_swap (a b : Value) : textOrder? b a = (textOrder? a b).map Ordering.swap := by
  cases a <;> cases b <;> try rfl
  exact congrArg some (Text.compareChars_swap _ _).symm

theorem plainOrder?_swap (a b : Value) :
    b.plainOrder? a = (a.plainOrder? b).map Ordering.swap := by
  unfold plainOrder?
  cases a.number? <;> cases b.number? <;> first
    | exact textOrder?_swap a b
    | exact Number.compare?_swap _ _

theorem rank_text (s : String) :
    (text s).rank = 2 ∧ (∃ n, (text s).number? = some n) ∨
      (text s).rank = 3 ∧ (text s).number? = none := by
  cases found : Number.ofText? s with
  | none => exact Or.inr (by simp [rank, number?, found])
  | some n => exact Or.inl (by simp [rank, number?, found])

theorem eq_bool_of_rank {v : Value} (isBool : v.rank = 1) : ∃ b, v = .bool b := by
  cases v with
  | bool b => exact ⟨b, rfl⟩
  | text s => rcases rank_text s with ⟨rank, -⟩ | ⟨rank, -⟩ <;> omega
  | _ => cases isBool

theorem number_of_rank {v : Value} (isNumber : v.rank = 2) : ∃ n, v.number? = some n := by
  cases v with
  | int n => exact ⟨.int n, rfl⟩
  | float x => exact ⟨.float x, rfl⟩
  | text s =>
    rcases rank_text s with ⟨-, found⟩ | ⟨rank, -⟩
    · exact found
    · omega
  | _ => cases isNumber

theorem text_of_rank {v : Value} (isText : v.rank = 3) :
    ∃ s, v = .text s ∧ v.number? = none := by
  cases v with
  | text s =>
    rcases rank_text s with ⟨rank, -⟩ | ⟨-, notNumeric⟩
    · omega
    · exact ⟨s, rfl, notNumeric⟩
  | _ => cases isText

theorem eq_array_of_rank {v : Value} (isArray : v.rank = 4) : ∃ items, v = .array items := by
  cases v with
  | array items => exact ⟨items, rfl⟩
  | text s => rcases rank_text s with ⟨rank, -⟩ | ⟨rank, -⟩ <;> omega
  | _ => cases isArray

theorem eq_record_of_rank {v : Value} (isRecord : v.rank = 5) : ∃ fields, v = .record fields := by
  cases v with
  | record fields => exact ⟨fields, rfl⟩
  | text s => rcases rank_text s with ⟨rank, -⟩ | ⟨rank, -⟩ <;> omega
  | _ => cases isRecord

theorem compare?_swap (a b : Value) : b.compare? a = (a.compare? b).map Ordering.swap := by
  by_cases bools : a.rank = 1 ∧ b.rank = 1
  · obtain ⟨a, rfl⟩ := eq_bool_of_rank bools.1
    obtain ⟨b, rfl⟩ := eq_bool_of_rank bools.2
    exact congrArg some Std.OrientedOrd.eq_swap
  · rw [compare?_eq_plainOrder? bools, compare?_eq_plainOrder? fun both => bools ⟨both.2, both.1⟩,
      plainOrder?_swap]

/-- The order of two values that conditions do not compare. -/
def orderOfBits : Value → Value → Ordering
  | .float x, .float y => compare (Double.totalKey x) (Double.totalKey y)
  | _, _ => .eq

theorem orderOfBits_swap (a b : Value) : orderOfBits b a = (orderOfBits a b).swap := by
  cases a <;> cases b <;> try rfl
  exact Std.OrientedOrd.eq_swap

/-- The order of two values of one rank. -/
def orderInRank : Value → Value → Ordering
  | .array as, .array bs => sortOrderItems as bs
  | .record as, .record bs => compare as.length bs.length
  | a, b => (a.compare? b).getD (orderOfBits a b)

/-- Whether two values are containers of one kind. -/
def sameContainer : Value → Value → Bool
  | .array _, .array _ => true
  | .record _, .record _ => true
  | _, _ => false

theorem sameContainer_symm (a b : Value) : sameContainer a b = sameContainer b a := by
  cases a <;> cases b <;> rfl

theorem orderInRank_apart {a b : Value} (apart : sameContainer a b = false) :
    orderInRank a b = (a.compare? b).getD (orderOfBits a b) := by
  cases a <;> cases b <;> first | rfl | cases apart

/-- Values are sorted by their ranks first. -/
theorem sortOrder_eq_then (a b : Value) :
    sortOrder a b = (compare a.rank b.rank).then (orderInRank a b) := by
  cases a <;> cases b <;> first
    | rfl
    | (simp only [sortOrder, orderInRank, orderOfBits]
       split <;> rename_i found <;> rw [found] <;> rfl)

theorem compare?_self (v : Value) : v.compare? v = some .eq ∨ v.compare? v = none := by
  cases h : v.compare? v with
  | none => exact Or.inr rfl
  | some order =>
    have swapped := compare?_swap v v
    rw [h] at swapped
    cases order <;> first | exact Or.inl rfl | cases swapped

theorem orderOfBits_self (v : Value) : orderOfBits v v = .eq := by
  cases v <;> first | rfl | exact Std.ReflOrd.compare_self

theorem orderInRank_apart_self {v : Value} (apart : sameContainer v v = false) :
    orderInRank v v = .eq := by
  rw [orderInRank_apart apart]
  rcases compare?_self v with same | missing
  · rw [same, Option.getD_some]
  · rw [missing, Option.getD_none, orderOfBits_self]

theorem orderInRank_apart_swap {a b : Value} (apart : sameContainer a b = false) :
    orderInRank b a = (orderInRank a b).swap := by
  rw [orderInRank_apart apart, orderInRank_apart (sameContainer_symm a b ▸ apart), compare?_swap,
    orderOfBits_swap]
  cases a.compare? b <;> rfl

mutual

/-- Every value is sorted beside itself. -/
theorem sortOrder_self (v : Value) : sortOrder v v = .eq := by
  rw [sortOrder_eq_then, Std.ReflOrd.compare_self, Ordering.eq_then]
  cases v with
  | array items => exact sortOrderItems_self items
  | record fields => exact Std.ReflOrd.compare_self
  | _ => exact orderInRank_apart_self rfl

theorem sortOrderItems_self (items : List Value) : sortOrderItems items items = .eq := by
  cases items with
  | nil => rfl
  | cons v rest => rw [sortOrderItems, sortOrder_self v, sortOrderItems_self rest, Ordering.eq_then]

end

mutual

/-- Exchanging two values turns their order round. -/
theorem sortOrder_swap (a b : Value) : sortOrder b a = (sortOrder a b).swap := by
  rw [sortOrder_eq_then, sortOrder_eq_then, Ordering.swap_then, ← Std.OrientedOrd.eq_swap]
  congr 1
  cases a with
  | array as =>
    cases b with
    | array bs => exact sortOrderItems_swap as bs
    | _ => exact orderInRank_apart_swap rfl
  | record as =>
    cases b with
    | record bs => exact Std.OrientedOrd.eq_swap
    | _ => exact orderInRank_apart_swap rfl
  | _ => exact orderInRank_apart_swap rfl

theorem sortOrderItems_swap (as bs : List Value) :
    sortOrderItems bs as = (sortOrderItems as bs).swap := by
  cases as with
  | nil => cases bs <;> rfl
  | cons a as =>
    cases bs with
    | nil => rfl
    | cons b bs =>
      rw [sortOrderItems, sortOrderItems, Ordering.swap_then, sortOrder_swap a b,
        sortOrderItems_swap as bs]

end

instance : Std.OrientedCmp sortOrder where
  eq_swap := sortOrder_swap _ _

end Value

end RecordQuery
