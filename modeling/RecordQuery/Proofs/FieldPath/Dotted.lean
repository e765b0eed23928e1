import RecordQuery.Proofs.FieldPath.Comma
import RecordQuery.Rows.Join

namespace RecordQuery

namespace FieldPath

/-- Characters that open neither a name between backticks nor a mark of iteration. -/
def IsBare (cs : List Char) : Prop :=
  ∀ c ∈ cs, isBacktick c = false ∧ c ≠ '['

instance (cs : List Char) : Decidable (IsBare cs) :=
  List.decidableBAll (fun c => isBacktick c = false ∧ c ≠ '[') cs

section

variable {cs name rest : List Char}

theorem IsBare.endsName (bare : IsBare name) (single : '.' ∉ name) :
    ∀ c ∈ name, FieldPath.endsName c = false := by
  intro c member
  have point : c ≠ '.' := fun same => single (same ▸ member)
  simp [FieldPath.endsName, point, (bare c member).2]

theorem readName_of_isBare {after : List Char} (bare : IsBare name) (single : '.' ∉ name)
    (nonempty : name ≠ []) (ends : ∀ c ∈ after.head?, FieldPath.endsName c = true) :
    readName (name ++ after) = some (some (String.ofList name), after) := by
  cases name with
  | nil => exact absurd rfl nonempty
  | cons c name => exact readName_bare (bare c (List.mem_cons_self ..)).1 (bare.endsName single) ends

/-- A name alone is one segment. -/
theorem readSegments_name (bare : IsBare name) (single : '.' ∉ name) (nonempty : name ≠ [])
    (first : Bool) : readSegments first name = some [.key (String.ofList name)] := by
  have named : readName name = some (some (String.ofList name), []) := by
    have alone := @readName_of_isBare name [] bare single nonempty nofun
    rwa [List.append_nil] at alone
  unfold readSegments
  split <;> rename_i found <;> cases named.symm.trans found
  rfl

/-- Behind a name and a point the other segments are read. -/
theorem readSegments_point (bare : IsBare name) (single : '.' ∉ name) (nonempty : name ≠ [])
    (first : Bool) (rest : List Char) : readSegments first (name ++ '.' :: rest) =
      (readSegments false rest).map (.key (String.ofList name) :: ·) := by
  have named : readName (name ++ '.' :: rest) = some (some (String.ofList name), '.' :: rest) :=
    readName_of_isBare bare single nonempty fun c head => by cases head; rfl
  rw [readSegments.eq_def]
  split <;> rename_i found <;> cases named.symm.trans found
  · rfl
  · rename_i other _ _
    exact absurd rfl other

/-- No path begins with a point, and none is empty. -/
theorem readSegments_empty (ends : ∀ c ∈ cs.head?, c = '.') (first : Bool) :
    readSegments first cs = none := by
  cases cs with
  | nil =>
    unfold readSegments
    rfl
  | cons c rest =>
    obtain rfl := ends c rfl
    have named : readName ('.' :: rest) = some (none, '.' :: rest) := rfl
    rw [readSegments.eq_def]
    split <;> rename_i found <;> cases named.symm.trans found <;> rfl

/-- A text is a name without points, alone or with a point and more behind it. -/
theorem exists_name (cs : List Char) :
    ∃ name after, cs = name ++ after ∧ '.' ∉ name ∧ (after = [] ∨ ∃ rest, after = '.' :: rest) := by
  obtain ⟨name, after, rfl, inside, ends, -⟩ := Token.exists_run (· != '.') cs
  refine ⟨name, after, rfl, fun member => by simpa using inside _ member, ?_⟩
  cases after with
  | nil => exact .inl rfl
  | cons c rest =>
    obtain rfl : c = '.' := by simpa using ends c rfl
    exact .inr ⟨rest, rfl⟩

/-- What a path without marks of iteration is read as is the same at its beginning and behind a
point. -/
theorem readSegments_of_isBare (bare : IsBare cs) (first : Bool) :
    readSegments first cs = readSegments false cs := by
  obtain ⟨name, after, rfl, single, ends⟩ := exists_name cs
  have front : IsBare name := fun c member => bare c (List.mem_append_left _ member)
  rcases Classical.em (name = []) with rfl | nonempty
  · have empty : ∀ c ∈ ([] ++ after).head?, c = '.' := by
      rcases ends with rfl | ⟨rest, rfl⟩
      · nofun
      · rintro c ⟨⟩
        rfl
    rw [readSegments_empty empty, readSegments_empty empty]
  · rcases ends with rfl | ⟨rest, rfl⟩
    · rw [List.append_nil, readSegments_name front single nonempty,
        readSegments_name front single nonempty]
    · rw [readSegments_point front single nonempty, readSegments_point front single nonempty]

/-- A path that is read has a name in front, which is all of it or has another path behind it. -/
theorem exists_of_readSegments {first : Bool} {segments : List Segment} (bare : IsBare cs)
    (read : readSegments first cs = some segments) :
    ∃ name, '.' ∉ name ∧ (cs = name ∧ segments = [.key (String.ofList name)] ∨
      ∃ rest later, cs = name ++ '.' :: rest ∧ readSegments true rest = some later ∧
        segments = .key (String.ofList name) :: later) := by
  obtain ⟨name, after, rfl, single, ends⟩ := exists_name cs
  have front : IsBare name := fun c member => bare c (List.mem_append_left _ member)
  have nonempty : name ≠ [] := by
    rintro rfl
    have refused : readSegments first after = none := by
      refine readSegments_empty ?_ first
      rcases ends with rfl | ⟨rest, rfl⟩
      · nofun
      · rintro c ⟨⟩
        rfl
    rw [List.nil_append, refused] at read
    cases read
  refine ⟨name, single, ?_⟩
  rcases ends with rfl | ⟨rest, rfl⟩
  · rw [List.append_nil, readSegments_name front single nonempty] at read
    exact .inl ⟨List.append_nil name, (Option.some.inj read).symm⟩
  · rw [readSegments_point front single nonempty] at read
    obtain ⟨later, behind, rfl⟩ := Option.map_eq_some_iff.mp read
    have bareRest : IsBare rest := fun c member =>
      bare c (List.mem_append_right _ (List.mem_cons_of_mem _ member))
    exact .inr ⟨rest, later, rfl, (readSegments_of_isBare bareRest true).trans behind, rfl⟩

end

/-- A path of names with points between them, as it has been read. -/
structure IsDotted (path : FieldPath) : Prop where
  read : FieldPath.ofText? path.text = some path
  bare : IsBare path.text.toList

theorem ofText?_of_read {text : String} {segments : List Segment}
    (read : readSegments true text.toList = some segments) :
    ofText? text = some ⟨text, segments⟩ := by
  rw [ofText?, read]
  rfl

theorem IsDotted.readSegments_eq {path : FieldPath} (dotted : path.IsDotted) :
    readSegments true path.text.toList = some path.segments := by
  obtain ⟨segments, read, same⟩ := Option.map_eq_some_iff.mp dotted.read
  rw [read, ← same]

theorem eq_of_points {a b x y : List Char} (first : '.' ∉ a) (second : '.' ∉ b)
    (same : a ++ '.' :: x = b ++ '.' :: y) : a = b ∧ x = y := by
  induction a generalizing b with
  | nil =>
    cases b with
    | nil => exact ⟨rfl, (List.cons.inj same).2⟩
    | cons d b => exact absurd ((List.cons.inj same).1 ▸ List.mem_cons_self ..) second
  | cons c a ih =>
    cases b with
    | nil => exact absurd ((List.cons.inj same).1 ▸ List.mem_cons_self ..) first
    | cons d b =>
      obtain ⟨rfl, later⟩ := List.cons.inj same
      obtain ⟨rfl, rfl⟩ := ih (fun member => first (List.mem_cons_of_mem _ member))
        (fun member => second (List.mem_cons_of_mem _ member)) later
      exact ⟨rfl, rfl⟩

theorem exists_cons_of_readSegments {cs : List Char} {segments : List Segment}
    (bare : IsBare cs) (read : readSegments true cs = some segments) :
    ∃ first later, segments = first :: later := by
  obtain ⟨name, -, ⟨-, rfl⟩ | ⟨-, later, -, -, rfl⟩⟩ := exists_of_readSegments bare read
  · exact ⟨_, [], rfl⟩
  · exact ⟨_, later, rfl⟩

/-- The text of a path behind an alias and a point, if it begins with them. -/
def behind? (aliasName : String) (path : FieldPath) : Option String :=
  let front := aliasName.toList ++ ['.']
  if front.isPrefixOf path.text.toList then
    some (String.ofList (path.text.toList.drop front.length))
  else none

theorem behind?_eq_some {aliasName rest : String} {path : FieldPath} :
    path.behind? aliasName = some rest ↔
      path.text.toList = aliasName.toList ++ '.' :: rest.toList := by
  unfold behind?
  dsimp only
  constructor
  · intro found
    split at found
    · rename_i starts
      obtain ⟨after, same⟩ := List.isPrefixOf_iff_prefix.mp starts
      cases found
      rw [← same, List.drop_left, String.toList_ofList, List.append_assoc]
      rfl
    · cases found
  · intro same
    have split : path.text.toList = (aliasName.toList ++ ['.']) ++ rest.toList := by
      rw [same, List.append_assoc]
      rfl
    rw [split, if_pos (List.isPrefixOf_iff_prefix.mpr (List.prefix_append ..)), List.drop_left,
      String.ofList_toList]

end FieldPath

namespace JoinTerms

variable {aliasName : String} {path : FieldPath}

/-- A path behind the alias of the right side is taken without it. -/
theorem withoutAlias?_of_behind (dotted : path.IsDotted) (single : '.' ∉ aliasName.toList)
    {rest : String} (behind : path.behind? aliasName = some rest) :
    ∃ other, FieldPath.ofText? rest = some other ∧
      withoutAlias? (some aliasName) path = some other := by
  have text := FieldPath.behind?_eq_some.mp behind
  obtain ⟨name, nameSingle, ⟨whole, -⟩ | ⟨after, later, split, read, segments⟩⟩ :=
    FieldPath.exists_of_readSegments dotted.bare (dotted.readSegments_eq)
  · refine absurd ?_ nameSingle
    rw [← whole, text]
    exact List.mem_append_right _ (List.mem_cons_self ..)
  · obtain ⟨rfl, rfl⟩ := FieldPath.eq_of_points single nameSingle (text.symm.trans split)
    have bare : FieldPath.IsBare rest.toList := fun c member =>
      dotted.bare c (text ▸ List.mem_append_right _ (List.mem_cons_of_mem _ member))
    obtain ⟨first, more, rfl⟩ := FieldPath.exists_cons_of_readSegments bare read
    have dropped : path.text.toList.drop (aliasName.length + 1) = rest.toList := by
      rw [text, ← String.length_toList, ← List.drop_drop, List.drop_left]
      rfl
    refine ⟨_, FieldPath.ofText?_of_read read, ?_⟩
    simp only [withoutAlias?, segments, String.ofList_toList, if_true, dropped]
    exact FieldPath.ofText?_of_read read

/-- Any other path is no path of the right side. -/
theorem withoutAlias?_of_apart (dotted : path.IsDotted)
    (apart : path.behind? aliasName = none) : withoutAlias? (some aliasName) path = none := by
  obtain ⟨name, -, ⟨-, segments⟩ | ⟨after, later, split, -, segments⟩⟩ :=
    FieldPath.exists_of_readSegments dotted.bare (dotted.readSegments_eq)
  · simp only [withoutAlias?, segments]
  · have other : String.ofList name ≠ aliasName := by
      rintro rfl
      have found : path.behind? (String.ofList name) = some (String.ofList after) := by
        rw [FieldPath.behind?_eq_some, split, String.toList_ofList, String.toList_ofList]
      rw [found] at apart
      cases apart
    cases later with
    | nil => simp only [withoutAlias?, segments]
    | cons => simp only [withoutAlias?, segments, if_neg other]

end JoinTerms

end RecordQuery
