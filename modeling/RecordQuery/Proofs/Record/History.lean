import Mathlib.Data.List.Induction
import RecordQuery.Proofs.Record.Merge

namespace RecordQuery.Record

/-- A change of a record. An assignment writes to a field that is there and does nothing otherwise. -/
inductive Change where
  | insert (key : String) (value : Value)
  | assign (key : String) (value : Value)
  | erase (key : String)
  | merge (other : Record)
  | nullFill

def change (r : Record) : Change → Record
  | .insert key v => r.insert key v
  | .assign key v => r.set key v
  | .erase key => r.erase key
  | .merge other => r.merge other
  | .nullFill => r.nullFilled

def changeAll (r : Record) (changes : List Change) : Record :=
  changes.foldl change r

/-- What happens to one field. A log lists such events, the oldest one first. -/
inductive Event where
  | written (key : String) (value : Value)
  | erased (key : String)

namespace Event

def erases (key : String) : Event → Bool
  | .written .. => false
  | .erased k => k == key

def value? (key : String) : Event → Option Value
  | .written k v => if k = key then some v else none
  | .erased _ => none

def writtenKey? : Event → Option String
  | .written key _ => some key
  | .erased _ => none

def apply (r : Record) : Event → Record
  | .written key v => r.insert key v
  | .erased key => r.erase key

end Event

/-- The events behind the last removal of a key, or all of them if it has not been removed. -/
def sinceErased (key : String) (log : List Event) : List Event :=
  (log.reverse.takeWhile fun e => !e.erases key).reverse

/-- The value that was last written to a key, unless the key has been removed since. -/
def lastWrite? (key : String) (log : List Event) : Option Value :=
  (sinceErased key log).reverse.findSome? (Event.value? key)

/-- The place in a log of the first write to a key since its last removal. -/
def firstWrite? (key : String) (log : List Event) : Option Nat :=
  let recent := sinceErased key log
  (recent.findIdx? fun e => (e.value? key).isSome).map (log.length - recent.length + ·)

/-- The keys that have been written, without those that are removed at the end. -/
def heldKeys (log : List Event) : List String :=
  (log.filterMap Event.writtenKey?).filter fun key => (lastWrite? key log).isSome

/-- What a change does to the fields that a log tells of. -/
def Change.events (log : List Event) : Change → List Event
  | .insert key v => [.written key v]
  | .assign key v => if (lastWrite? key log).isSome then [.written key v] else []
  | .erase key => [.erased key]
  | .merge other => other.fields.map fun field => .written field.1 field.2
  | .nullFill => (heldKeys log).map fun key => .written key .null

/-- A record began with its fields, which were written in their order. -/
def beginning (r : Record) : List Event :=
  r.fields.map fun field => .written field.1 field.2

/-- The log of a record that has been changed. -/
def history (r : Record) (changes : List Change) : List Event :=
  changes.foldl (fun log c => log ++ c.events log) r.beginning

section

variable {log : List Event} {key : String}

theorem sinceErased_concat (key : String) (log : List Event) (e : Event) :
    sinceErased key (log ++ [e]) =
      if e.erases key then [] else sinceErased key log ++ [e] := by
  unfold sinceErased
  rw [List.reverse_append, List.reverse_singleton, List.singleton_append, List.takeWhile_cons]
  cases e.erases key <;> simp

theorem length_sinceErased_le (key : String) (log : List Event) :
    (sinceErased key log).length ≤ log.length := by
  unfold sinceErased
  rw [List.length_reverse, ← log.length_reverse]
  exact (List.takeWhile_sublist _).length_le

theorem lastWrite?_concat (key : String) (log : List Event) (e : Event) :
    lastWrite? key (log ++ [e]) =
      if e.erases key then none else (e.value? key).or (lastWrite? key log) := by
  unfold lastWrite?
  rw [sinceErased_concat]
  cases e.erases key with
  | true => rfl
  | false =>
    rw [if_neg Bool.false_ne_true, if_neg Bool.false_ne_true, List.reverse_append,
      List.reverse_singleton, List.singleton_append, List.findSome?_cons]
    cases e.value? key <;> rfl

theorem firstWrite?_concat (key : String) (log : List Event) (e : Event) :
    firstWrite? key (log ++ [e]) =
      if e.erases key then none
      else (firstWrite? key log).or (if (e.value? key).isSome then some log.length else none) := by
  have bound := length_sinceErased_le key log
  unfold firstWrite?
  dsimp only
  rw [sinceErased_concat]
  cases e.erases key with
  | true => rfl
  | false =>
    rw [if_neg Bool.false_ne_true, if_neg Bool.false_ne_true, List.findIdx?_append,
      List.length_append, List.length_append, List.length_singleton, Nat.add_sub_add_right]
    cases (sinceErased key log).findIdx? fun e => (e.value? key).isSome with
    | some i => rfl
    | none =>
      rw [List.findIdx?_singleton]
      cases (e.value? key).isSome with
      | true => simp [bound]
      | false => rfl

/-- Exactly the keys that hold a value have been written since their last removal. -/
theorem isSome_firstWrite? (key : String) (log : List Event) :
    (firstWrite? key log).isSome = (lastWrite? key log).isSome := by
  induction log using List.reverseRecOn with
  | nil => rfl
  | append_singleton log e ih =>
    rw [firstWrite?_concat, lastWrite?_concat]
    split
    · rfl
    · rw [Option.isSome_or, Option.isSome_or, ih, Bool.or_comm]
      cases (e.value? key).isSome <;> rfl

theorem firstWrite?_lt {i : Nat} (first : firstWrite? key log = some i) : i < log.length := by
  have bound := length_sinceErased_le key log
  obtain ⟨j, found, rfl⟩ := Option.map_eq_some_iff.mp first
  have inside := (List.findIdx?_eq_some_iff_getElem.mp found).1
  omega

theorem mem_heldKeys : key ∈ heldKeys log ↔ (lastWrite? key log).isSome = true := by
  unfold heldKeys
  rw [List.mem_filter, and_iff_right_iff_imp]
  intro held
  obtain ⟨v, last⟩ := Option.isSome_iff_exists.mp held
  obtain ⟨e, recent, value⟩ := List.exists_of_findSome?_eq_some last
  have inside : e ∈ log := by
    unfold sinceErased at recent
    rw [List.reverse_reverse] at recent
    exact List.mem_reverse.mp ((List.takeWhile_sublist _).subset recent)
  refine List.mem_filterMap.mpr ⟨e, inside, ?_⟩
  unfold Event.value? at value
  split at value
  · split at value
    · rename_i same
      exact congrArg some same
    · cases value
  · cases value

end

/-- A record holds what its log tells: the last values, and the keys in the order in which they were
written first since they were removed last. -/
structure Follows (r : Record) (log : List Event) : Prop where
  values : ∀ key, r.get? key = lastWrite? key log
  ordered : r.keys.Pairwise fun a b =>
    ∃ i ∈ firstWrite? a log, ∃ j ∈ firstWrite? b log, i < j

section

variable {r : Record} {log : List Event}

theorem Follows.mem_keys (follows : r.Follows log) {key : String} :
    key ∈ r.keys ↔ (lastWrite? key log).isSome = true := by
  rw [mem_keys_iff, follows.values]

theorem Follows.nodup_keys (follows : r.Follows log) : r.keys.Nodup := by
  refine follows.ordered.imp ?_
  rintro a b ⟨i, first, j, second, less⟩ rfl
  obtain rfl := Option.some.inj (first.symm.trans second)
  exact Nat.lt_irrefl i less

/-- A write to a key changes its value. A key that is new is written later than all others. -/
theorem Follows.written (follows : r.Follows log) (key : String) (v : Value) :
    (r.insert key v).Follows (log ++ [.written key v]) := by
  have kept {a : String} {i : Nat} (first : i ∈ firstWrite? a log) :
      i ∈ firstWrite? a (log ++ [.written key v]) := by
    rw [firstWrite?_concat, Option.mem_def.mp first]
    rfl
  have before : r.keys.Pairwise fun a b => ∃ i ∈ firstWrite? a (log ++ [.written key v]),
      ∃ j ∈ firstWrite? b (log ++ [.written key v]), i < j :=
    follows.ordered.imp fun ⟨i, first, j, second, less⟩ => ⟨i, kept first, j, kept second, less⟩
  constructor
  · intro other
    rw [lastWrite?_concat, ← follows.values]
    by_cases same : other = key
    · subst same
      rw [get?_insert_self]
      simp [Event.erases, Event.value?]
    · rw [get?_insert_other r same]
      simp [Event.erases, Event.value?, Ne.symm same]
  · by_cases member : key ∈ r.keys
    · rwa [keys_insert_of_mem member]
    · rw [keys_insert member]
      refine List.pairwise_append.mpr ⟨before, List.pairwise_singleton .., ?_⟩
      intro a inside b last
      obtain rfl := List.mem_singleton.mp last
      have new : firstWrite? b log = none := by
        rw [← Option.not_isSome_iff_eq_none, isSome_firstWrite?, ← follows.mem_keys]
        exact member
      have held : (firstWrite? a log).isSome = true := by
        rw [isSome_firstWrite?, ← follows.mem_keys]
        exact inside
      obtain ⟨i, first⟩ := Option.isSome_iff_exists.mp held
      refine ⟨i, kept first, log.length, ?_, firstWrite?_lt first⟩
      rw [firstWrite?_concat, new]
      simp [Event.erases, Event.value?]

/-- A key that is removed is forgotten, and the others stay as they are. -/
theorem Follows.erased (follows : r.Follows log) (key : String) :
    (r.erase key).Follows (log ++ [.erased key]) := by
  have apart := follows.nodup_keys
  constructor
  · intro other
    rw [lastWrite?_concat, ← follows.values]
    by_cases same : other = key
    · subst same
      rw [get?_erase_self apart]
      simp [Event.erases]
    · rw [get?_erase_other r same]
      simp [Event.erases, Event.value?, Ne.symm same]
  · have kept {a : String} {i : Nat} (other : a ≠ key) (first : i ∈ firstWrite? a log) :
        i ∈ firstWrite? a (log ++ [.erased key]) := by
      rw [firstWrite?_concat, Option.mem_def.mp first]
      simp [Event.erases, Ne.symm other]
    rw [keys_erase]
    refine (follows.ordered.sublist List.erase_sublist).imp_of_mem ?_
    rintro a b aInside bInside ⟨i, first, j, second, less⟩
    exact ⟨i, kept (apart.mem_erase_iff.mp aInside).1 first, j,
      kept (apart.mem_erase_iff.mp bInside).1 second, less⟩

/-- What one event does keeps a record in line with its log, and so do all of them. -/
theorem Follows.foldl_apply (follows : r.Follows log) (events : List Event) :
    (events.foldl Event.apply r).Follows (log ++ events) := by
  induction events generalizing r log with
  | nil => rwa [List.append_nil]
  | cons e rest ih =>
    rw [List.append_cons]
    cases e with
    | written key v => exact ih (follows.written key v)
    | erased key => exact ih (follows.erased key)

/-- Nulls that are written to keys that are there leave the keys as they are. -/
theorem foldl_insert_null {keys : List String} (inside : ∀ key ∈ keys, key ∈ r.keys) :
    (keys.foldl (fun r key => r.insert key .null) r).keys = r.keys ∧ ∀ key,
      (keys.foldl (fun r key => r.insert key .null) r).get? key =
        if key ∈ keys then some .null else r.get? key := by
  induction keys generalizing r with
  | nil => exact ⟨rfl, fun _ => rfl⟩
  | cons first rest ih =>
    obtain ⟨here, later⟩ := List.forall_mem_cons.mp inside
    have same := keys_insert_of_mem here .null
    obtain ⟨keys, values⟩ := ih (r := r.insert first .null) (same ▸ later)
    refine ⟨keys.trans same, fun key => ?_⟩
    rw [List.foldl_cons, values]
    by_cases again : key ∈ rest
    · rw [if_pos again, if_pos (List.mem_cons_of_mem _ again)]
    · rw [if_neg again]
      by_cases own : key = first
      · rw [own, get?_insert_self, if_pos (List.mem_cons_self ..)]
      · rw [get?_insert_other r own, if_neg (List.not_mem_cons_of_ne_of_not_mem own again)]

theorem keys_nullFilled (r : Record) : r.nullFilled.keys = r.keys := by
  unfold nullFilled keys
  rw [List.map_map]
  rfl

theorem get?_nullFilled (r : Record) (key : String) :
    r.nullFilled.get? key = if key ∈ r.keys then some .null else none := by
  obtain ⟨fields⟩ := r
  induction fields with
  | nil => rfl
  | cons field rest ih =>
    have step : nullFilled ⟨field :: rest⟩ = ⟨(field.1, .null) :: (nullFilled ⟨rest⟩).fields⟩ := rfl
    have keys : Record.keys ⟨field :: rest⟩ = field.1 :: Record.keys ⟨rest⟩ := rfl
    rw [step, get?_cons, ih, keys]
    by_cases same : key = field.1 <;> simp [same]

/-- A change does to a record what the events say that it adds to the log. -/
theorem Follows.change_eq (follows : r.Follows log) (c : Change) :
    r.change c = (c.events log).foldl Event.apply r := by
  cases c with
  | insert | erase => rfl
  | assign key v =>
    rw [change, set, contains, Change.events, follows.values]
    split <;> rfl
  | merge other =>
    rw [change, merge, Change.events, List.foldl_map]
    rfl
  | nullFill =>
    have held (key : String) : key ∈ heldKeys log ↔ key ∈ r.keys := by
      rw [mem_heldKeys, follows.mem_keys]
    obtain ⟨keys, values⟩ := foldl_insert_null fun key inside => (held key).mp inside
    rw [change, Change.events, List.foldl_map]
    have apart : r.nullFilled.keys.Nodup := r.keys_nullFilled ▸ follows.nodup_keys
    refine ext_get? (r.keys_nullFilled.trans keys.symm) apart fun key => ?_
    refine (r.get?_nullFilled key).trans ((values key).trans ?_).symm
    by_cases inside : key ∈ r.keys
    · rw [if_pos ((held key).mpr inside), if_pos inside]
    · rw [if_neg (mt (held key).mp inside), if_neg inside]
      rwa [mem_keys_iff, Option.not_isSome_iff_eq_none] at inside

theorem Follows.change (follows : r.Follows log) (c : Change) :
    (r.change c).Follows (log ++ c.events log) :=
  follows.change_eq c ▸ follows.foldl_apply (c.events log)

theorem follows_beginning (apart : r.keys.Nodup) : r.Follows r.beginning := by
  have start : empty.Follows [] := ⟨fun _ => rfl, .nil⟩
  have made := start.foldl_apply r.beginning
  have whole : r.beginning.foldl Event.apply empty = r := by
    rw [beginning, List.foldl_map]
    exact empty_merge apart
  rwa [whole] at made

/-- Changes of any kind and number keep a record in line with its history. -/
theorem follows_history (apart : r.keys.Nodup) (changes : List Change) :
    (r.changeAll changes).Follows (r.history changes) := by
  have run {r : Record} {log : List Event} (follows : r.Follows log) : (changes.foldl change r).Follows
      (changes.foldl (fun log c => log ++ c.events log) log) := by
    induction changes generalizing r log with
    | nil => exact follows
    | cons c rest ih => exact ih (follows.change c)
  exact run (follows_beginning apart)

end

/-- Whatever is done to a record whose keys are apart, they stay apart and stand in the order in
which they were written first since their last removal, and each holds what was written to it last
unless it has been removed since. Merging is associative, and with the empty record on either side
it changes nothing, so joins without an alias may be grouped in any way. -/
theorem changeAll_isOrderedMap :
    (∀ (r : Record) (changes : List Change), r.keys.Nodup →
      (r.changeAll changes).keys.Nodup ∧
      ((r.changeAll changes).keys.Pairwise fun a b =>
        ∃ i ∈ firstWrite? a (r.history changes), ∃ j ∈ firstWrite? b (r.history changes), i < j) ∧
      (∀ key, key ∈ (r.changeAll changes).keys ↔
        (firstWrite? key (r.history changes)).isSome = true) ∧
      ∀ key, (r.changeAll changes).get? key = lastWrite? key (r.history changes)) ∧
    (∀ a b c : Record, a.keys.Nodup → b.keys.Nodup → c.keys.Nodup →
      (a.merge b).merge c = a.merge (b.merge c) ∧ a.merge empty = a ∧ empty.merge a = a) ∧
    ∀ first second : Joiner, first.aliasName = none → second.aliasName = none →
      ∀ a b c : Record, a.keys.Nodup → b.keys.Nodup → c.keys.Nodup →
        second.attach (first.attach a (.ofRecord b)) (.ofRecord c) =
          first.attach a (.ofRecord (second.attach b (.ofRecord c))) := by
  refine ⟨fun r changes apart => ?_, fun a b c aApart bApart cApart => ?_, ?_⟩
  · have follows := follows_history apart changes
    refine ⟨follows.nodup_keys, follows.ordered, fun key => ?_, follows.values⟩
    rw [isSome_firstWrite?, follows.mem_keys]
  · exact ⟨merge_assoc aApart bApart cApart, merge_empty a, empty_merge aApart⟩
  · intro first second unnamed unnamed' a b c aApart bApart cApart
    exact Joiner.attach_assoc unnamed unnamed' aApart bApart cApart

/-- A key that is removed and written again goes to the end, and one that is overwritten keeps its
place. -/
theorem changeAll_isOrderedMap_again :
    let r : Record := ⟨[("a", .int 1), ("b", .int 2)]⟩
    let other : Record := ⟨[("c", .bool true), ("b", .text "x")]⟩
    let changes : List Change :=
      [.erase "a", .merge other, .nullFill, .assign "d" (.int 5), .insert "a" (.int 3),
        .assign "c" (.int 4)]
    let joiner : Joiner := ⟨.left, none, ⟨"b", [.key "b"]⟩, .equal, [], none⟩
    (r.keys.Nodup ∧ other.keys.Nodup ∧ joiner.aliasName = none) ∧
      (r.changeAll changes).keys = ["b", "c", "a"] ∧
      (r.changeAll changes).keys.Nodup ∧
      ((r.changeAll changes).keys.Pairwise fun a b =>
        ∃ i ∈ firstWrite? a (r.history changes), ∃ j ∈ firstWrite? b (r.history changes), i < j) ∧
      (∀ key, key ∈ (r.changeAll changes).keys ↔
        (firstWrite? key (r.history changes)).isSome = true) ∧
      (∀ key, (r.changeAll changes).get? key = lastWrite? key (r.history changes)) ∧
      ((r.merge other).merge r = r.merge (other.merge r) ∧ r.merge empty = r ∧
        empty.merge r = r) ∧
      joiner.attach (joiner.attach r (.ofRecord other)) (.ofRecord r) =
        joiner.attach r (.ofRecord (joiner.attach other (.ofRecord r))) := by
  intro r other changes joiner
  have apart : r.keys.Nodup := by decide
  have otherApart : other.keys.Nodup := by decide
  obtain ⟨runs, merges, joins⟩ := changeAll_isOrderedMap
  obtain ⟨nodup, ordered, held, values⟩ := runs r changes apart
  exact ⟨⟨apart, otherApart, rfl⟩, by decide, nodup, ordered, held, values,
    merges r other r apart otherApart apart,
    joins joiner joiner rfl rfl r other r apart otherApart apart⟩

end RecordQuery.Record
