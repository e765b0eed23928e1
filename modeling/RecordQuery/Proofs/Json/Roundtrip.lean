import RecordQuery.Json.Reading
import RecordQuery.Proofs.Json.Injective
import RecordQuery.Proofs.Record.Keys
import RecordQuery.Proofs.Value.Keys

namespace RecordQuery

namespace Value

mutual

/-- How many containers stand around the innermost part of a value, its own ones counted. -/
def depth : Value → Nat
  | .array items => itemsDepth items + 1
  | .record fields => fieldsDepth fields + 1
  | _ => 0

def itemsDepth : List Value → Nat
  | [] => 0
  | v :: rest => max v.depth (itemsDepth rest)

def fieldsDepth : List (String × Value) → Nat
  | [] => 0
  | (_, v) :: rest => max v.depth (fieldsDepth rest)

end

end Value

namespace Json

/-- Whether a reader at the beginning of a value makes the value of its tokens, as long as no more
containers are opened than may be. -/
def Builds (v : Value) : Prop :=
  ∀ frames s, frames.length + v.depth ≤ depthLimit →
    (valueTokens v ++ s).foldlM step (.value frames) = s.foldlM step (.done v frames)

theorem opened_of_room {frames : List Frame} (room : frames.length < depthLimit) (next : State) :
    opened frames next = some next :=
  if_pos room

/-- The first item is read like any other, since no value begins with a closing bracket. -/
theorem foldlM_firstItem (frames : List Frame) (v : Value) (rest : List Value) (s : List Token) :
    (itemTokens (v :: rest) ++ s).foldlM step (.firstItem frames) =
      (itemTokens (v :: rest) ++ s).foldlM step (.value (.items [] :: frames)) := by
  rw [itemTokens_eq, separated]
  cases v <;> rfl

theorem foldlM_itemTokens {v : Value} {rest : List Value} (builds : ∀ w ∈ v :: rest, Builds w)
    (before : List Value) {frames : List Frame}
    (room : frames.length + 1 + Value.itemsDepth (v :: rest) ≤ depthLimit) (s : List Token) :
    (itemTokens (v :: rest) ++ .closeArray :: s).foldlM step (.value (.items before :: frames)) =
      s.foldlM step (.done (.array (before.reverse ++ v :: rest)) frames) := by
  induction rest generalizing v before with
  | nil =>
    have inside : (Frame.items before :: frames).length + v.depth ≤ depthLimit :=
      Nat.le_trans (Nat.add_le_add_left (Nat.le_max_left ..) _) room
    rw [itemTokens, builds v (List.mem_cons_self ..) _ _ inside]
    rfl
  | cons w rest ih =>
    obtain ⟨first, others⟩ := List.forall_mem_cons.mp builds
    have inside : (Frame.items before :: frames).length + v.depth ≤ depthLimit :=
      Nat.le_trans (Nat.add_le_add_left (Nat.le_max_left ..) _) room
    have later := ih others (v :: before)
      (Nat.le_trans (Nat.add_le_add_left (Nat.le_max_right ..) _) room)
    rw [List.reverse_cons, List.append_assoc] at later
    rw [itemTokens, List.append_assoc, first _ _ inside]
    exact later

theorem absent_of_nodup {key : String} {v : Value} {before rest : List (String × Value)}
    (apart : ((before ++ (key, v) :: rest).map Prod.fst).Nodup) : key ∉ before.map Prod.fst := by
  rw [List.map_append, List.map_cons] at apart
  exact fun member =>
    (List.nodup_append.mp apart).2.2 key member key (List.mem_cons_self ..) rfl

theorem foldlM_field {key : String} {v : Value} (builds : Builds v)
    {before : List (String × Value)} {frames : List Frame} {state : State}
    (starts : step state (.text key) = some (.colon before key frames))
    (room : frames.length + 1 + v.depth ≤ depthLimit) (s : List Token) :
    (.text key :: .colon :: valueTokens v ++ s).foldlM step state =
      s.foldlM step (.done v (.fields before key :: frames)) := by
  rw [List.cons_append, List.cons_append, List.foldlM_cons, starts]
  exact builds (.fields before key :: frames) s room

/-- Fields are read one after the other from any place where a key may come next. -/
theorem foldlM_fieldTokens {key : String} {v : Value} {rest : List (String × Value)}
    (builds : ∀ field ∈ (key, v) :: rest, Builds field.2) {before : List (String × Value)}
    (apart : ((before ++ (key, v) :: rest).map Prod.fst).Nodup) {frames : List Frame}
    (room : frames.length + 1 + Value.fieldsDepth ((key, v) :: rest) ≤ depthLimit)
    {state : State} (starts : ∀ k, step state (.text k) = some (.colon before k frames))
    (s : List Token) :
    (fieldTokens ((key, v) :: rest) ++ .closeObject :: s).foldlM step state =
      s.foldlM step (.done (.record (before ++ (key, v) :: rest)) frames) := by
  induction rest generalizing key v before state with
  | nil =>
    have inside := Nat.le_trans (Nat.add_le_add_left (Nat.le_max_left ..) _) room
    have inserted := Record.insertField_absent (absent_of_nodup apart) v
    rw [fieldTokens, foldlM_field (builds _ (List.mem_cons_self ..)) (starts key) inside,
      ← inserted]
    rfl
  | cons field rest ih =>
    obtain ⟨first, others⟩ := List.forall_mem_cons.mp builds
    have inside := Nat.le_trans (Nat.add_le_add_left (Nat.le_max_left ..) _) room
    have inserted := Record.insertField_absent (absent_of_nodup apart) v
    have startsNext : ∀ k, step (.key (before ++ [(key, v)]) frames) (.text k) =
        some (.colon (before ++ [(key, v)]) k frames) := fun _ => rfl
    have later := ih others (by rwa [List.append_assoc])
      (Nat.le_trans (Nat.add_le_add_left (Nat.le_max_right ..) _) room) startsNext
    rw [List.append_assoc, ← inserted] at later
    have written : fieldTokens ((key, v) :: field :: rest) ++ .closeObject :: s =
        .text key :: .colon :: valueTokens v ++
          .comma :: (fieldTokens (field :: rest) ++ .closeObject :: s) := by
      rw [fieldTokens, List.append_assoc]
      rfl
    rw [written, foldlM_field first (starts key) inside]
    exact later

theorem builds_array {items : List Value} (builds : ∀ v ∈ items, Builds v) :
    Builds (.array items) := by
  intro frames s room
  have inside : frames.length + 1 + Value.itemsDepth items ≤ depthLimit := by
    rw [Value.depth] at room
    omega
  have opens : step (.value frames) .openArray = some (.firstItem frames) :=
    opened_of_room (by omega) _
  rw [valueTokens, List.cons_append, List.cons_append, List.foldlM_cons, opens, List.append_assoc]
  change ((itemTokens items ++ .closeArray :: s).foldlM step (.firstItem frames)) = _
  cases items with
  | nil => rfl
  | cons v rest => rw [foldlM_firstItem, foldlM_itemTokens builds [] inside]; rfl

theorem builds_record {fields : List (String × Value)} (apart : (fields.map Prod.fst).Nodup)
    (builds : ∀ field ∈ fields, Builds field.2) : Builds (.record fields) := by
  intro frames s room
  have inside : frames.length + 1 + Value.fieldsDepth fields ≤ depthLimit := by
    rw [Value.depth] at room
    omega
  have opens : step (.value frames) .openObject = some (.firstKey frames) :=
    opened_of_room (by omega) _
  rw [valueTokens, List.cons_append, List.cons_append, List.foldlM_cons, opens, List.append_assoc]
  change ((fieldTokens fields ++ .closeObject :: s).foldlM step (.firstKey frames)) = _
  cases fields with
  | nil => rfl
  | cons field rest =>
    have starts : ∀ k, step (.firstKey frames) (.text k) = some (.colon [] k frames) :=
      fun _ => rfl
    exact foldlM_fieldTokens builds apart inside starts s

theorem builds {v : Value} (apart : v.KeysApart) : Builds v := by
  induction apart with
  | array _ ih => exact builds_array ih
  | record distinct _ ih => exact builds_record distinct ih
  | _ => exact fun _ _ _ => rfl

/-- The tokens of a value denote the value. -/
theorem ofTokens?_valueTokens {v : Value} (apart : v.KeysApart) (shallow : v.depth ≤ depthLimit) :
    ofTokens? (valueTokens v) = some v := by
  have built := builds apart [] [] (by simpa using shallow)
  rw [List.append_nil] at built
  rw [ofTokens?, built]
  rfl

theorem read?_of_reads {v : Value} {cs : List Char} (reads : Reads cs (valueTokens v))
    (apart : v.KeysApart) (shallow : v.depth ≤ depthLimit) :
    read? (String.ofList cs) = some v := by
  have tokens := reads [] endsNumber_nil
  rw [List.append_nil, tokens?, Option.map_some, List.append_nil] at tokens
  rw [read?, String.toList_ofList, tokens]
  exact ofTokens?_valueTokens apart shallow

end Json

namespace Record

/-- A record without doubles is read back from its JSON as it was, in either layout: with its
fields in their order at every level and with every value of its own kind. -/
theorem ofJson_toJson {r : Record} (exact : (Value.ofRecord r).WithoutDoubles)
    (apart : (Value.ofRecord r).KeysApart) (shallow : (Value.ofRecord r).depth ≤ 127) :
    ofJson r.toJson = .ok r ∧ ofJson r.toJsonPretty = .ok r := by
  have compact := Json.read?_of_reads (Json.reads_compactChars exact) apart shallow
  have pretty := Json.read?_of_reads (Json.reads_prettyChars exact 0) apart shallow
  constructor
  · rw [ofJson, toJson, Json.write, compact]
    rfl
  · rw [ofJson, toJsonPretty, Json.writePretty, pretty]
    rfl

theorem ofJson_toJson_nested :
    let inner : Value := .record [("y", .text "\"\\\n"), ("x", .null)]
    let r : Record := ⟨[("b", .array [.int Int64.minValue, inner]), ("a", .array [])]⟩
    (Value.ofRecord r).WithoutDoubles ∧ (Value.ofRecord r).KeysApart ∧
      (Value.ofRecord r).depth ≤ 127 ∧ ofJson r.toJson = .ok r ∧ ofJson r.toJsonPretty = .ok r := by
  intro inner r
  have innerExact : inner.WithoutDoubles :=
    .record (List.forall_mem_cons.mpr ⟨.text _, List.forall_mem_singleton.mpr .null⟩)
  have exact : (Value.ofRecord r).WithoutDoubles :=
    .record (List.forall_mem_cons.mpr
      ⟨.array (List.forall_mem_cons.mpr ⟨.int _, List.forall_mem_singleton.mpr innerExact⟩),
        List.forall_mem_singleton.mpr (.array nofun)⟩)
  have innerApart : inner.KeysApart :=
    .record (by decide) (List.forall_mem_cons.mpr ⟨.text _, List.forall_mem_singleton.mpr .null⟩)
  have apart : (Value.ofRecord r).KeysApart :=
    .record (by decide) (List.forall_mem_cons.mpr
      ⟨.array (List.forall_mem_cons.mpr ⟨.int _, List.forall_mem_singleton.mpr innerApart⟩),
        List.forall_mem_singleton.mpr (.array nofun)⟩)
  have shallow : (Value.ofRecord r).depth ≤ 127 := by decide
  exact ⟨exact, apart, shallow, ofJson_toJson exact apart shallow⟩

end Record

end RecordQuery
