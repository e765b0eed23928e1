import RecordQuery.Proofs.Text.Blank
import RecordQuery.Proofs.Token.Path

namespace RecordQuery.Token

open Text (EndsVisibly)

theorem isBlank_of_inName {c : Char} (inside : inName c = true) : Text.isBlank c = false := by
  have range : 36 ≤ c.toNat ∧ c.toNat ≤ 122 := by
    unfold inName Char.isAlphanum Char.isAlpha Char.isUpper Char.isLower Char.isDigit at inside
    simp only [Bool.or_eq_true, Bool.and_eq_true, decide_eq_true_eq, UInt32.le_iff_toNat_le,
      ge_iff_le, beq_iff_eq] at inside
    rcases inside with ((((⟨low, high⟩ | ⟨low, high⟩) | ⟨low, high⟩) | rfl) | rfl) | rfl
    · exact ⟨Nat.le_trans (by decide) low, Nat.le_trans high (by decide)⟩
    · exact ⟨Nat.le_trans (by decide) low, Nat.le_trans high (by decide)⟩
    · exact ⟨Nat.le_trans (by decide) low, Nat.le_trans high (by decide)⟩
    · decide
    · decide
    · decide
  simp only [Text.isBlank, Bool.or_eq_false_iff, Bool.and_eq_false_iff, beq_eq_false_iff_ne,
    decide_eq_false_iff_not]
  omega

theorem inName_of_startsName {c : Char} (starts : startsName c = true) : inName c = true := by
  simp only [startsName, inName, Char.isAlphanum, Bool.or_eq_true] at starts ⊢
  exact starts.imp_left (Or.imp_left (Or.imp_left .inl))

theorem IsMark.endsVisibly {marked : Bool} {mark : List Char} (isMark : IsMark marked mark) :
    EndsVisibly mark := by
  rcases isMark with rfl | ⟨-, rfl⟩
  · nofun
  · exact .of_all (List.forall_mem_cons.mpr ⟨rfl, List.forall_mem_singleton.mpr rfl⟩)

theorem endsVisibly_name {c : Char} {name : List Char} (first : inName c = true)
    (all : ∀ d ∈ name, inName d = true) : EndsVisibly (c :: name) := by
  refine .of_all fun d member => ?_
  rcases List.mem_cons.mp member with rfl | later
  · exact isBlank_of_inName first
  · exact isBlank_of_inName (all d later)

theorem endsVisibly_backtick {name : List Char} : EndsVisibly (name ++ ['\x60']) := by
  intro c last
  rw [List.getLast?_concat] at last
  cases last
  rfl

theorem Steps.endsVisibly {marked : Bool} {cs : List Char} (steps : Steps marked cs) :
    EndsVisibly cs := by
  induction steps with
  | done => nofun
  | @quoted name mark more quoted isMark steps ih =>
    have parts : '.' :: '\x60' :: (name ++ '\x60' :: (mark ++ more)) =
        ('.' :: '\x60' :: name ++ ['\x60']) ++ (mark ++ more) := by simp
    rw [parts]
    exact endsVisibly_backtick.append (isMark.endsVisibly.append ih)
  | @bare c name mark more first all isMark steps ih =>
    have point : EndsVisibly ['.'] := .of_all (List.forall_mem_singleton.mpr rfl)
    exact point.append ((endsVisibly_name first all).append (isMark.endsVisibly.append ih))

theorem IsPath.exists_cons {cs : List Char} (isPath : IsPath cs) :
    ∃ c rest, cs = c :: rest ∧ Text.isBlank c = false := by
  cases isPath with
  | bare starts => exact ⟨_, _, rfl, isBlank_of_inName (inName_of_startsName starts)⟩
  | quoted => exact ⟨_, _, rfl, rfl⟩

/-- Blanks stand at the ends of no path. -/
theorem IsPath.trimChars {cs : List Char} (isPath : IsPath cs) : Text.trimChars cs = cs := by
  obtain ⟨c, rest, same, visible⟩ := isPath.exists_cons
  refine Text.trimChars_of_ends (fun d first => ?_) ?_
  · rw [same] at first
    cases first
    exact visible
  cases isPath with
  | bare starts all isMark isSteps =>
    exact (endsVisibly_name (inName_of_startsName starts) all).append
      (isMark.endsVisibly.append isSteps.endsVisibly)
  | @quoted name mark steps quoted isMark isSteps =>
    have parts : '\x60' :: (name ++ '\x60' :: (mark ++ steps)) =
        ('\x60' :: name ++ ['\x60']) ++ (mark ++ steps) := by simp
    rw [parts]
    exact endsVisibly_backtick.append (isMark.endsVisibly.append isSteps.endsVisibly)

end RecordQuery.Token
