import RecordQuery.Double.Rounding
import RecordQuery.Proofs.Double.Integer
import RecordQuery.Proofs.Double.SortKey
import RecordQuery.Proofs.Value.SortOrder

namespace RecordQuery

/-- Whether three points can lie on a line such that `ab`, `bc` and `ac` are the orders of the first
and the second, the second and the third, and the first and the third of them. -/
def OnLine (ab bc ac : Ordering) : Prop :=
  match ab, bc with
  | .eq, _ => ac = bc
  | _, .eq => ac = ab
  | .lt, .lt => ac = .lt
  | .gt, .gt => ac = .gt
  | _, _ => True

namespace OnLine

theorem of_compare {α : Type} [Ord α] [Std.TransOrd α] (a b c : α) :
    OnLine (compare a b) (compare b c) (compare a c) := by
  cases ab : compare a b <;> cases bc : compare b c
  case lt.lt => exact Std.TransCmp.lt_trans ab bc
  case lt.eq => exact Std.TransCmp.lt_of_lt_of_eq ab bc
  case gt.gt => exact Std.TransCmp.gt_trans ab bc
  case gt.eq => exact Std.TransCmp.gt_of_gt_of_eq ab bc
  case lt.gt => trivial
  case gt.lt => trivial
  all_goals exact (Std.TransCmp.congr_left ab).trans bc

/-- A second order counts only where the first one does not tell three points apart. -/
theorem thenBy {ab bc ac ab' bc' ac' : Ordering} (first : OnLine ab bc ac)
    (second : ab = .eq → bc = .eq → OnLine ab' bc' ac') :
    OnLine (ab.then ab') (bc.then bc') (ac.then ac') := by
  cases ab <;> cases bc <;> cases first
  case eq.eq => exact second rfl rfl
  case lt.lt => exact rfl
  case gt.gt => exact rfl
  case eq.lt => cases ab' <;> trivial
  case eq.gt => cases ab' <;> trivial
  case lt.eq => cases bc' <;> trivial
  case gt.eq => cases bc' <;> trivial
  case lt.gt => trivial
  case gt.lt => trivial

theorem rotate {ab bc ac : Ordering} (line : OnLine ab bc ac) : OnLine bc ac.swap ab.swap := by
  cases ab <;> cases bc <;> cases ac <;> first | rfl | trivial

theorem of_lt (bc : Ordering) : OnLine .lt bc .lt := by
  cases bc <;> trivial

theorem of_gt (ab : Ordering) : OnLine ab .gt .gt := by
  cases ab <;> trivial

theorem ne_gt {ab bc ac : Ordering} (line : OnLine ab bc ac) (first : ab ≠ .gt)
    (second : bc ≠ .gt) : ac ≠ .gt := by
  cases ab <;> cases bc <;> simp_all [OnLine]

end OnLine

theorem Text.compareChars_onLine (as bs cs : List Char) :
    OnLine (compareChars as bs) (compareChars bs cs) (compareChars as cs) := by
  induction as generalizing bs cs with
  | nil =>
    cases bs with
    | nil => cases cs <;> rfl
    | cons b bs =>
      cases cs with
      | nil => trivial
      | cons c cs => exact .of_lt _
  | cons a as ih =>
    cases bs with
    | nil => cases cs <;> first | rfl | trivial
    | cons b bs =>
      cases cs with
      | nil => exact .of_gt _
      | cons c cs =>
        rw [compareChars, compareChars, compareChars]
        exact .thenBy (.of_compare a.toNat b.toNat c.toNat) fun _ _ => ih bs cs

namespace Number

/-- The place of the double nearest to a number. -/
def place : Number → Int
  | .int n => Double.integerPlace n.toInt
  | .float x => Double.place x

/-- Whether a number is one at all. -/
def IsProper : Number → Prop
  | .int _ => True
  | .float x => Double.shape x ≠ .nan

/-- The order of two proper numbers. -/
def order : Number → Number → Ordering
  | .int m, .int n => compare m.toInt n.toInt
  | x, y => compare x.place y.place

theorem place_toFloat {n : Number} (proper : n.IsProper) :
    Double.shape n.toFloat ≠ .nan ∧ Double.place n.toFloat = n.place := by
  cases n with
  | int n =>
    have low := n.le_toInt
    have high := n.toInt_lt
    exact Double.place_ofInt (by omega)
  | float x => exact ⟨proper, rfl⟩

theorem compare?_eq_order {x y : Number} (xProper : x.IsProper) (yProper : y.IsProper) :
    x.compare? y = some (x.order y) := by
  obtain ⟨xNumber, xPlace⟩ := place_toFloat xProper
  obtain ⟨yNumber, yPlace⟩ := place_toFloat yProper
  have doubles := Double.compare?_eq_some xNumber yNumber
  rw [xPlace, yPlace] at doubles
  cases x <;> cases y <;> first | rfl | exact doubles

/-- Whether a number and a double that are equal as doubles are one integer. -/
def SameWhole : Number → Number → Prop
  | .int n, .float x =>
    Double.integerPlace n.toInt = Double.place x → Double.truncate? x = some n.toInt
  | _, _ => True

end Number

namespace OnLine

/-- Two integers are told apart exactly and a double is told apart from either as a double. That
fits on a line unless the double is equal to both of them although they differ. -/
theorem of_integers {m n r : Int}
    (apart : Double.integerPlace m = r → Double.integerPlace n = r → m = n) :
    OnLine (compare m n) (compare (Double.integerPlace n) r)
      (compare (Double.integerPlace m) r) := by
  rcases Int.lt_trichotomy m n with less | same | greater
  · have places := Double.integerPlace_mono (Int.le_of_lt less)
    rw [Std.compare_eq_lt.mpr less]
    rcases Int.lt_trichotomy (Double.integerPlace n) r with below | equal | above
    · rw [Std.compare_eq_lt.mpr below, Std.compare_eq_lt.mpr (show _ < r by omega)]
      rfl
    · have first : Double.integerPlace m ≠ r := fun both => by
        have := apart both equal
        omega
      rw [equal, Std.ReflOrd.compare_self, Std.compare_eq_lt.mpr (show _ < r by omega)]
      rfl
    · rw [Std.compare_eq_gt.mpr above]
      trivial
  · rw [same, Std.ReflOrd.compare_self]
    rfl
  · have places := Double.integerPlace_mono (Int.le_of_lt greater)
    rw [Std.compare_eq_gt.mpr greater]
    rcases Int.lt_trichotomy (Double.integerPlace n) r with below | equal | above
    · rw [Std.compare_eq_lt.mpr below]
      trivial
    · have first : Double.integerPlace m ≠ r := fun both => by
        have := apart both equal
        omega
      rw [equal, Std.ReflOrd.compare_self, Std.compare_eq_gt.mpr (show r < _ by omega)]
      rfl
    · rw [Std.compare_eq_gt.mpr above, Std.compare_eq_gt.mpr (show r < _ by omega)]
      rfl

end OnLine

/-- Proper numbers are ordered on a line unless a double is equal to an integer only by rounding. -/
theorem Number.order_onLine {x y z : Number}
    (whole : ∀ v ∈ [x, y, z], ∀ w ∈ [x, y, z], v.SameWhole w) :
    OnLine (x.order y) (y.order z) (x.order z) := by
  have apart {m n : Int64} {r : Float} (first : (int m).SameWhole (.float r))
      (second : (int n).SameWhole (.float r)) (left : Double.integerPlace m.toInt = Double.place r)
      (right : Double.integerPlace n.toInt = Double.place r) : m.toInt = n.toInt :=
    Option.some.inj ((first left).symm.trans (second right))
  cases x with
  | int m =>
    cases y with
    | int n =>
      cases z with
      | int k => exact .of_compare m.toInt n.toInt k.toInt
      | float r =>
        exact .of_integers (apart (whole _ (by simp) _ (by simp)) (whole _ (by simp) _ (by simp)))
    | float r =>
      cases z with
      | int n =>
        have line : OnLine (compare n.toInt m.toInt) _ _ := .of_integers
          (apart (r := r) (whole _ (by simp) _ (by simp)) (whole _ (by simp) _ (by simp)))
        have turned := line.rotate
        rwa [← Std.OrientedOrd.eq_swap, ← Std.OrientedOrd.eq_swap] at turned
      | float s => exact .of_compare (place (.int m)) (place (.float r)) (place (.float s))
  | float r =>
    cases y with
    | int m =>
      cases z with
      | int n =>
        have line : OnLine (compare m.toInt n.toInt) _ _ := .of_integers
          (apart (r := r) (whole _ (by simp) _ (by simp)) (whole _ (by simp) _ (by simp)))
        have turned := line.rotate.rotate
        rwa [Ordering.swap_swap, ← Std.OrientedOrd.eq_swap, ← Std.OrientedOrd.eq_swap] at turned
      | float s => exact .of_compare (place (.float r)) (place (.int m)) (place (.float s))
    | float s => exact .of_compare (place (.float r)) (place (.float s)) z.place

namespace Value

def isDouble : Value → Bool
  | .float _ => true
  | _ => false

/-- Whether two values may be sorted together. A NaN stands among doubles only, and an integer that
is equal to a double as a double has to be that double exactly. -/
def agrees (v w : Value) : Bool :=
  match v.number?, w.number? with
  | some (.int n), some (.float x) =>
    match Double.compare? (Float.ofInt n.toInt) x with
    | some .eq => Double.truncate? x == some n.toInt
    | some _ => true
    | none => false
  | some (.float x), some _ => Double.shape x != .nan || (v.isDouble && w.isDouble)
  | _, _ => true

/-- Whether any two of the values may be sorted together. -/
def Coherent (vs : List Value) : Prop :=
  ∀ v ∈ vs, ∀ w ∈ vs, v.agrees w = true

instance (vs : List Value) : Decidable (Coherent vs) :=
  inferInstanceAs (Decidable (∀ v ∈ vs, ∀ w ∈ vs, v.agrees w = true))

mutual

/-- The values that a value is sorted by: the items of arrays at any depth, and a value that is no
array itself. -/
def leaves : Value → List Value
  | .array items => itemLeaves items
  | v => [v]

def itemLeaves : List Value → List Value
  | [] => []
  | v :: rest => leaves v ++ itemLeaves rest

end

theorem Coherent.mono {vs ws : List Value} (coherent : Coherent vs) (sub : ws ⊆ vs) : Coherent ws :=
  fun v vMember w wMember => coherent v (sub vMember) w (sub wMember)

theorem orderInRank_numbers {a b : Value} {x y : Number} (first : a.number? = some x)
    (second : b.number? = some y) :
    orderInRank a b = (x.compare? y).getD (orderOfBits a b) := by
  have apart : sameContainer a b = false := by cases a <;> first | rfl | cases first
  have noBool : ¬ (a.rank = 1 ∧ b.rank = 1) := fun bools => by
    obtain ⟨c, rfl⟩ := eq_bool_of_rank bools.1
    cases first
  rw [orderInRank_apart apart, compare?_eq_plainOrder? noBool, plainOrder?, first, second]

/-- Doubles alone lie on a line, the NaNs among them. -/
theorem orderInRank_doubles (x y z : Float) :
    OnLine (orderInRank (.float x) (.float y)) (orderInRank (.float y) (.float z))
      (orderInRank (.float x) (.float z)) := by
  have keys (x y : Float) : orderInRank (.float x) (.float y) =
      compare (Double.sortKey x) (Double.sortKey y) := Double.getD_compare? x y
  rw [keys, keys, keys]
  exact .of_compare _ _ _

/-- A number that is sorted together with one that is no double is proper. -/
theorem isProper_of_agrees {v w : Value} {x y : Number} (first : v.number? = some x)
    (second : w.number? = some y) (agree : v.agrees w = true) (mixed : w.isDouble = false) :
    x.IsProper := by
  cases x with
  | int n => trivial
  | float x =>
    simp only [agrees, first, second, mixed, Bool.and_false, Bool.or_false, bne_iff_ne] at agree
    exact agree

theorem sameWhole_of_agrees {v w : Value} {x y : Number} (first : v.number? = some x)
    (second : w.number? = some y) (agree : v.agrees w = true) (proper : y.IsProper) :
    x.SameWhole y := by
  cases x with
  | float x => trivial
  | int n =>
    cases y with
    | int m => trivial
    | float y =>
      intro same
      have order : Double.compare? (Float.ofInt n.toInt) y = some .eq := by
        have numbers := Number.place_toFloat (n := .int n) trivial
        rw [Double.compare?_eq_eq]
        exact ⟨numbers.1, proper, numbers.2.trans same⟩
      simp only [agrees, first, second, order, beq_iff_eq] at agree
      exact agree

theorem onLine_numbers {a b c : Value} {x y z : Number} (first : a.number? = some x)
    (second : b.number? = some y) (third : c.number? = some z) (coherent : Coherent [a, b, c]) :
    OnLine (orderInRank a b) (orderInRank b c) (orderInRank a c) := by
  by_cases doubles : ∀ v ∈ [a, b, c], v.isDouble = true
  · have isFloat {v : Value} (double : v.isDouble = true) : ∃ x, v = .float x := by
      cases v <;> first | exact ⟨_, rfl⟩ | cases double
    obtain ⟨x, rfl⟩ := isFloat (doubles a (by simp))
    obtain ⟨y, rfl⟩ := isFloat (doubles b (by simp))
    obtain ⟨z, rfl⟩ := isFloat (doubles c (by simp))
    exact orderInRank_doubles x y z
  · obtain ⟨w, among, mixed⟩ : ∃ w ∈ [a, b, c], ¬ w.isDouble = true := by
      simpa only [not_forall, exists_prop] using doubles
    rw [Bool.not_eq_true] at mixed
    have isNumber : ∃ n, w.number? = some n := by
      simp only [List.mem_cons, List.not_mem_nil, or_false] at among
      rcases among with rfl | rfl | rfl
      · exact ⟨x, first⟩
      · exact ⟨y, second⟩
      · exact ⟨z, third⟩
    obtain ⟨n, number⟩ := isNumber
    have proper {v : Value} {m : Number} (member : v ∈ [a, b, c]) (found : v.number? = some m) :
        m.IsProper := isProper_of_agrees found number (coherent v member w among) mixed
    have xProper := proper (by simp) first
    have yProper := proper (by simp) second
    have zProper := proper (by simp) third
    rw [orderInRank_numbers first second, orderInRank_numbers second third,
      orderInRank_numbers first third, Number.compare?_eq_order xProper yProper,
      Number.compare?_eq_order yProper zProper, Number.compare?_eq_order xProper zProper]
    refine Number.order_onLine fun v vMember w wMember => ?_
    have valueOf {n : Number} (member : n ∈ [x, y, z]) :
        ∃ u ∈ [a, b, c], u.number? = some n := by
      simp only [List.mem_cons, List.not_mem_nil, or_false] at member
      rcases member with rfl | rfl | rfl
      · exact ⟨a, by simp, first⟩
      · exact ⟨b, by simp, second⟩
      · exact ⟨c, by simp, third⟩
    obtain ⟨t, tMember, tNumber⟩ := valueOf vMember
    obtain ⟨u, uMember, uNumber⟩ := valueOf wMember
    exact sameWhole_of_agrees tNumber uNumber (coherent t tMember u uMember)
      (proper uMember uNumber)

theorem leaves_eq_self {v : Value} (noArray : v.rank ≠ 4) : v.leaves = [v] := by
  cases v <;> first | rfl | exact absurd rfl noArray

theorem orderInRank_texts {s t : String} (noNumber : (text s).number? = none) :
    orderInRank (text s) (text t) = compareTexts s t := by
  have noBool : ¬ ((text s).rank = 1 ∧ (text t).rank = 1) := fun bools => by
    obtain ⟨c, same⟩ := eq_bool_of_rank bools.1
    cases same
  rw [orderInRank_apart rfl, compare?_eq_plainOrder? noBool, plainOrder?_none (Or.inl noNumber)]
  rfl

theorem rank_le (v : Value) : v.rank ≤ 5 := by
  cases v with
  | text s => rcases rank_text s with ⟨rank, -⟩ | ⟨rank, -⟩ <;> omega
  | _ => simp [rank]

theorem eq_null_of_rank {v : Value} (isNull : v.rank = 0) : v = .null := by
  cases v with
  | null => rfl
  | text s => rcases rank_text s with ⟨rank, -⟩ | ⟨rank, -⟩ <;> omega
  | _ => cases isNull

/-- Values of one rank that are no arrays lie on a line. -/
theorem onLine_scalars {a b c : Value} (noArray : a.rank ≠ 4) (ab : a.rank = b.rank)
    (bc : b.rank = c.rank) (coherent : Coherent [a, b, c]) :
    OnLine (orderInRank a b) (orderInRank b c) (orderInRank a c) := by
  have bound := a.rank_le
  rcases (by omega : a.rank = 0 ∨ a.rank = 1 ∨ a.rank = 2 ∨ a.rank = 3 ∨ a.rank = 5) with
    isNull | isBool | isNumber | isText | isRecord
  · obtain rfl := eq_null_of_rank isNull
    obtain rfl := eq_null_of_rank (ab ▸ isNull)
    obtain rfl := eq_null_of_rank (bc ▸ ab ▸ isNull)
    rfl
  · obtain ⟨a, rfl⟩ := eq_bool_of_rank isBool
    obtain ⟨b, rfl⟩ := eq_bool_of_rank (ab ▸ isBool)
    obtain ⟨c, rfl⟩ := eq_bool_of_rank (bc ▸ ab ▸ isBool)
    exact .of_compare a.toNat b.toNat c.toNat
  · obtain ⟨x, first⟩ := number_of_rank isNumber
    obtain ⟨y, second⟩ := number_of_rank (ab ▸ isNumber)
    obtain ⟨z, third⟩ := number_of_rank (bc ▸ ab ▸ isNumber)
    exact onLine_numbers first second third coherent
  · obtain ⟨s, rfl, first⟩ := text_of_rank isText
    obtain ⟨t, rfl, second⟩ := text_of_rank (ab ▸ isText)
    obtain ⟨u, rfl, third⟩ := text_of_rank (bc ▸ ab ▸ isText)
    rw [orderInRank_texts first, orderInRank_texts second, orderInRank_texts first]
    exact Text.compareChars_onLine _ _ _
  · obtain ⟨as, rfl⟩ := eq_record_of_rank isRecord
    obtain ⟨bs, rfl⟩ := eq_record_of_rank (ab ▸ isRecord)
    obtain ⟨cs, rfl⟩ := eq_record_of_rank (bc ▸ ab ▸ isRecord)
    exact .of_compare as.length bs.length cs.length

mutual

/-- Three values lie on a line as soon as all that they are sorted by may be sorted together. -/
theorem sortOrder_onLine (a b c : Value) (coherent : Coherent (a.leaves ++ b.leaves ++ c.leaves)) :
    OnLine (sortOrder a b) (sortOrder b c) (sortOrder a c) := by
  rw [sortOrder_eq_then, sortOrder_eq_then, sortOrder_eq_then]
  refine .thenBy (.of_compare a.rank b.rank c.rank) fun first second => ?_
  have ab := Std.LawfulEqOrd.eq_of_compare first
  have bc := Std.LawfulEqOrd.eq_of_compare second
  by_cases isArray : a.rank = 4
  · obtain ⟨as, rfl⟩ := eq_array_of_rank isArray
    obtain ⟨bs, rfl⟩ := eq_array_of_rank (ab ▸ isArray)
    obtain ⟨cs, rfl⟩ := eq_array_of_rank (bc ▸ ab ▸ isArray)
    exact sortOrderItems_onLine as bs cs coherent
  · rw [leaves_eq_self isArray, leaves_eq_self (ab ▸ isArray),
      leaves_eq_self (bc ▸ ab ▸ isArray)] at coherent
    exact onLine_scalars isArray ab bc coherent

theorem sortOrderItems_onLine (as bs cs : List Value)
    (coherent : Coherent (itemLeaves as ++ itemLeaves bs ++ itemLeaves cs)) :
    OnLine (sortOrderItems as bs) (sortOrderItems bs cs) (sortOrderItems as cs) := by
  cases as with
  | nil =>
    cases bs with
    | nil => cases cs <;> rfl
    | cons b bs =>
      cases cs with
      | nil => trivial
      | cons c cs => exact .of_lt _
  | cons a as =>
    cases bs with
    | nil => cases cs <;> first | rfl | trivial
    | cons b bs =>
      cases cs with
      | nil => exact .of_gt _
      | cons c cs =>
        rw [sortOrderItems, sortOrderItems, sortOrderItems]
        refine .thenBy (sortOrder_onLine a b c (coherent.mono ?_)) fun _ _ =>
          sortOrderItems_onLine as bs cs (coherent.mono ?_)
        all_goals
          intro v member
          simp only [itemLeaves, List.mem_append] at member ⊢
          tauto

end

/-- Sorting goes by a total preorder as far as the values may be sorted together: every value stands
beside itself, exchanging two values turns their order round, and the order carries over. -/
theorem sortOrder_preorder (a b c : Value) :
    sortOrder a a = .eq ∧ sortOrder a b = (sortOrder b a).swap ∧
      (Coherent (a.leaves ++ b.leaves ++ c.leaves) →
        sortOrder a b ≠ .gt → sortOrder b c ≠ .gt → sortOrder a c ≠ .gt) := by
  refine ⟨sortOrder_self a, sortOrder_swap b a, fun coherent first second => ?_⟩
  exact (sortOrder_onLine a b c coherent).ne_gt first second

theorem sortOrder_preorder_mixed :
    let a : Value := .array [.int 1, .text "10", .null]
    let b : Value := .array [.float 1.0, .text "x"]
    let c : Value := .array [.text "1", .array [.bool true]]
    Coherent (a.leaves ++ b.leaves ++ c.leaves) ∧ sortOrder a b ≠ .gt ∧ sortOrder b c ≠ .gt ∧
      sortOrder a c ≠ .gt := by
  intro a b c
  have coherent : Coherent (a.leaves ++ b.leaves ++ c.leaves) := by decide
  have first : sortOrder a b ≠ .gt := by decide
  have second : sortOrder b c ≠ .gt := by decide
  exact ⟨coherent, first, second, (sortOrder_preorder a b c).2.2 coherent first second⟩

/-- An integer of 54 bits, the double next below it, and the integer of that double. -/
theorem not_sortOrder_trans : ¬ ∀ a b c : Value,
    sortOrder a b ≠ .gt → sortOrder b c ≠ .gt → sortOrder a c ≠ .gt := by
  intro trans
  exact trans (.int 9007199254740993) (.float 9007199254740992.0) (.int 9007199254740992)
    (by decide) (by decide) (by decide)

end Value

end RecordQuery
