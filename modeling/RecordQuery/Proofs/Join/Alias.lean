import Mathlib.Tactic.ByCases
import RecordQuery.Proofs.FieldPath.FirstName
import RecordQuery.Rows.Join

namespace RecordQuery

open Token (IsQuotedName)

namespace FieldPath

/-- Behind a backtick and a point a path is read as a part of a name up to its first backtick. If
that gives the segments that the path has alone, then the path begins with a point between
backticks, and the same holds of what is written behind them. -/
theorem exists_shorter_reopened {first : Bool} {cs : List Char} {segments : List Segment}
    (denotes : Denotes false cs segments) (reopened : Denotes first ('\x60' :: '.' :: cs) segments) :
    ∃ more later, more.length < cs.length ∧ Denotes false more later ∧
      Denotes false ('\x60' :: '.' :: more) later := by
  obtain ⟨name, rest, rfl⟩ := reopened.exists_key (by decide)
  obtain ⟨text, behind, isName, whole, behindName⟩ := reopened.exists_name
  obtain ⟨text', behind', isName', rfl, behindName'⟩ := denotes.exists_name
  obtain ⟨quoted, rfl⟩ | ⟨-, rfl, bare⟩ := isName.cases_text
  swap
  · exact absurd (congrArg List.head? whole).symm (bare behind)
  have starts : '.' :: (text' ++ behind') = name.toList ++ '\x60' :: behind := by
    simpa using whole
  -- The name begins with a point, so it stands between backticks in the path as well.
  cases chars : name.toList with
  | nil =>
    rw [chars] at starts
    cases starts
  | cons c inside =>
    rw [chars] at starts quoted
    obtain ⟨rfl, after⟩ := List.cons.inj starts
    obtain ⟨-, rfl⟩ | ⟨plain, -, -⟩ := isName'.cases_text
    swap
    · cases plain '.' (chars ▸ List.mem_cons_self ..)
    rw [chars] at after ⊢
    cases inside with
    | cons d inside =>
      obtain ⟨rfl, -⟩ := List.cons.inj after
      cases quoted '\x60' (by simp)
    | nil =>
      obtain rfl : behind = '.' :: '\x60' :: behind' := by simpa using after.symm
      cases behindName with
      | point later =>
        obtain ⟨key, others, rfl⟩ := later.exists_key (by decide)
        cases behindName' with
        | @point more _ shorter =>
          refine ⟨more, _, ?_, shorter, later⟩
          simp
          omega

theorem not_denotes_reopened {first : Bool} {cs : List Char} {segments : List Segment}
    (denotes : Denotes false cs segments) : ¬ Denotes first ('\x60' :: '.' :: cs) segments := by
  intro reopened
  obtain ⟨more, later, shorter, alone, again⟩ := exists_shorter_reopened denotes reopened
  exact not_denotes_reopened alone again
termination_by cs.length

end FieldPath

namespace JoinTerms

variable {text name key : String} {path : FieldPath} {rest : List Segment}

theorem withoutAlias?_of_ne (segments : path.segments = .key name :: rest) {aliasName : String}
    (other : aliasName ≠ name) : withoutAlias? (some aliasName) path = none := by
  unfold withoutAlias?
  rw [segments]
  split
  · rename_i same front
    cases same
    cases front
    exact if_neg (Ne.symm other)
  · rfl

/-- As many characters as the alias has, and one more, are taken away from the text. -/
theorem withoutAlias?_eq (segments : path.segments = .key name :: .key key :: rest) :
    withoutAlias? (some name) path =
      FieldPath.ofText? (String.ofList (path.text.toList.drop (name.length + 1))) := by
  simp only [withoutAlias?, segments, if_true]

section

variable {more : List Char} (segments : path.segments = .key name :: .key key :: rest)
  (later : FieldPath.Denotes false more (.key key :: rest))

include segments later

/-- Behind a bare alias nothing but its point is taken away. -/
theorem withoutAlias?_bare (written : path.text.toList = name.toList ++ '.' :: more) :
    withoutAlias? (some name) path = some ⟨String.ofList more, .key key :: rest⟩ := by
  have dropped : (name.toList ++ '.' :: more).drop (name.toList.length + 1) = more := by
    rw [← List.drop_drop, List.drop_left]
    rfl
  rw [withoutAlias?_eq segments, written, ← String.length_toList, dropped]
  refine FieldPath.Denotes.ofText? ?_
  rw [String.toList_ofList]
  exact later.of_key true

/-- Of an alias between backticks the last backtick is left. -/
theorem withoutAlias?_ticked
    (written : path.text.toList = '\x60' :: (name.toList ++ ['\x60']) ++ '.' :: more)
    {other : FieldPath} (found : withoutAlias? (some name) path = some other) :
    other.segments ≠ .key key :: rest := by
  have dropped : ('\x60' :: (name.toList ++ ['\x60']) ++ '.' :: more).drop
      (name.toList.length + 1) = '\x60' :: '.' :: more := by
    simp
  rw [withoutAlias?_eq segments, written, ← String.length_toList, dropped] at found
  obtain ⟨_, parsed, rfl⟩ := Option.map_eq_some_iff.mp found
  rw [String.toList_ofList] at parsed
  intro remaining
  rw [← remaining] at later
  exact FieldPath.not_denotes_reopened later (FieldPath.denotes_of_readSegments parsed)

end

/-- A path of which more than the alias is left is taken without the alias exactly when its first
name is the alias and does not stand between backticks: then the segments behind it are left, however
they are written. Another first name is no alias. -/
theorem withoutAlias?_segments (read : FieldPath.ofText? text = some path)
    (segments : path.segments = .key name :: .key key :: rest) (aliasName : String) :
    (aliasName ≠ name → withoutAlias? (some aliasName) path = none) ∧
      ((∃ other, withoutAlias? (some aliasName) path = some other ∧
          other.segments = .key key :: rest) ↔
        aliasName = name ∧ path.isTicked = false) := by
  refine ⟨withoutAlias?_of_ne segments, ?_⟩
  by_cases same : aliasName = name
  swap
  · simp [withoutAlias?_of_ne segments same, same]
  subst same
  obtain ⟨others, parsed, rfl⟩ := Option.map_eq_some_iff.mp read
  have denotes := FieldPath.denotes_of_readSegments parsed
  rw [show others = .key aliasName :: .key key :: rest from segments] at denotes
  obtain ⟨front, behind, isName, whole, behindName⟩ := denotes.exists_name
  cases behindName with
  | @point more _ later =>
    rw [FieldPath.isTicked]
    dsimp only
    obtain ⟨-, rfl⟩ | ⟨-, rfl, bare⟩ := isName.cases_text
    · refine iff_of_false ?_ (by simp [whole])
      rintro ⟨other, found, remaining⟩
      exact withoutAlias?_ticked segments later whole found remaining
    · refine iff_of_true ⟨_, withoutAlias?_bare segments later whole, rfl⟩ ⟨rfl, ?_⟩
      rw [whole]
      exact beq_false_of_ne (bare ('.' :: more))

/-- A point between backticks and a mark of iteration behind the alias. -/
theorem withoutAlias?_segments_marked :
    let text := "o.\x60a.b\x60[].c"
    let path : FieldPath := ⟨text, [.key "o", .key "a.b", .each, .key "c"]⟩
    FieldPath.ofText? text = some path ∧ path.isTicked = false ∧
      ("p" ≠ "o" → withoutAlias? (some "p") path = none) ∧
      ((∃ other, withoutAlias? (some "o") path = some other ∧
          other.segments = [.key "a.b", .each, .key "c"]) ↔
        "o" = "o" ∧ path.isTicked = false) := by
  intro text path
  have read : FieldPath.ofText? text = some path := by decide +kernel
  have segments : path.segments = .key "o" :: .key "a.b" :: [.each, .key "c"] := rfl
  exact ⟨read, by decide +kernel, (withoutAlias?_segments read segments "p").1,
    (withoutAlias?_segments read segments "o").2⟩

/-- An alias between backticks is not taken away. -/
theorem not_withoutAlias?_segments : ¬ ∀ (text name key : String) (path : FieldPath)
    (rest : List Segment), FieldPath.ofText? text = some path →
      path.segments = .key name :: .key key :: rest →
      ∃ other, withoutAlias? (some name) path = some other ∧ other.segments = .key key :: rest := by
  intro taken
  have read : FieldPath.ofText? "\x60o\x60.uid" =
      some ⟨"\x60o\x60.uid", [.key "o", .key "uid"]⟩ := by
    decide +kernel
  obtain ⟨other, found, -⟩ := taken _ "o" "uid" _ [] read rfl
  have missing : withoutAlias? (some "o") ⟨"\x60o\x60.uid", [.key "o", .key "uid"]⟩ = none := by
    decide +kernel
  rw [missing] at found
  cases found

end JoinTerms

end RecordQuery
