import RecordQuery.Proofs.Json.Value

namespace RecordQuery.Json

section Separated

variable {α β γ : Type} {write : β → List α} {key : β → γ} {stops : List α → Prop}

/-- Whether what is written for `b` shows the key of `b` and where it ends, in front of all that
stops it. -/
def Cancels (write : β → List α) (key : β → γ) (stops : List α → Prop) (b : β) : Prop :=
  ∀ c s t, stops s → stops t → write b ++ s = write c ++ t → key b = key c ∧ s = t

/-- What is written for several, with a separator between them. -/
def separated (write : β → List α) (separator : α) : List β → List α
  | [] => []
  | b :: rest => write b ++ rest.flatMap fun c => separator :: write c

theorem eq_separated {join : List β → List α} {separator : α} (joinNil : join [] = [])
    (one : ∀ b, join [b] = write b)
    (more : ∀ b c rest, join (b :: c :: rest) = write b ++ separator :: join (c :: rest))
    (bs : List β) : join bs = separated write separator bs := by
  cases bs with
  | nil => exact joinNil
  | cons b rest =>
    induction rest generalizing b with
    | nil => rw [one, separated, List.flatMap_nil, List.append_nil]
    | cons c rest ih => rw [more, ih]; rfl

/-- A separator and a closing sign that stop what stands in front of them. Nothing of what is
separated begins with the closing sign. -/
structure Separates (write : β → List α) (stops : List α → Prop) (separator close : α) :
    Prop where
  apart : separator ≠ close
  atSeparator : ∀ s, stops (separator :: s)
  atClose : ∀ s, stops (close :: s)
  notFirst : ∀ c s t, write c ++ s ≠ close :: t

namespace Separates

variable {separator close : α} {bs cs : List β} {s t : List α}

theorem stopped (separates : Separates write stops separator close) (bs : List β) (s : List α) :
    stops ((bs.flatMap fun b => separator :: write b) ++ close :: s) := by
  cases bs with
  | nil => exact separates.atClose _
  | cons b bs => exact separates.atSeparator _

theorem rest_cancel (separates : Separates write stops separator close)
    (cancels : ∀ b ∈ bs, Cancels write key stops b)
    (same : (bs.flatMap fun b => separator :: write b) ++ close :: s =
      (cs.flatMap fun c => separator :: write c) ++ close :: t) :
    bs.map key = cs.map key ∧ s = t := by
  induction bs generalizing cs with
  | nil =>
    cases cs with
    | nil => exact ⟨rfl, List.tail_eq_of_cons_eq same⟩
    | cons c cs => exact absurd (List.head_eq_of_cons_eq same).symm separates.apart
  | cons b bs ih =>
    cases cs with
    | nil => exact absurd (List.head_eq_of_cons_eq same) separates.apart
    | cons c cs =>
      simp only [List.flatMap_cons, List.cons_append, List.append_assoc, List.cons.injEq,
        true_and] at same
      obtain ⟨keys, after⟩ := cancels b (List.mem_cons_self ..) c _ _ (separates.stopped bs s)
        (separates.stopped cs t) same
      obtain ⟨later, rfl⟩ := ih (fun d member => cancels d (List.mem_cons_of_mem _ member)) after
      exact ⟨by rw [List.map_cons, List.map_cons, keys, later], rfl⟩

theorem cancel (separates : Separates write stops separator close)
    (cancels : ∀ b ∈ bs, Cancels write key stops b)
    (same : separated write separator bs ++ close :: s =
      separated write separator cs ++ close :: t) : bs.map key = cs.map key ∧ s = t := by
  cases bs with
  | nil =>
    cases cs with
    | nil => exact ⟨rfl, List.tail_eq_of_cons_eq same⟩
    | cons c cs =>
      rw [separated, separated, List.append_assoc] at same
      exact absurd same.symm (separates.notFirst c _ _)
  | cons b bs =>
    cases cs with
    | nil =>
      rw [separated, separated, List.append_assoc] at same
      exact absurd same (separates.notFirst b _ _)
    | cons c cs =>
      rw [separated, separated, List.append_assoc, List.append_assoc] at same
      obtain ⟨keys, after⟩ := cancels b (List.mem_cons_self ..) c _ _ (separates.stopped bs s)
        (separates.stopped cs t) same
      obtain ⟨later, rfl⟩ := separates.rest_cancel
        (fun d member => cancels d (List.mem_cons_of_mem _ member)) after
      exact ⟨by rw [List.map_cons, List.map_cons, keys, later], rfl⟩

end Separates

end Separated

/-- The tokens of a field. -/
def tokensOfField (field : String × Value) : List Token :=
  .text field.1 :: .colon :: valueTokens field.2

theorem itemTokens_eq (items : List Value) :
    itemTokens items = separated valueTokens .comma items :=
  eq_separated rfl (fun _ => rfl) (fun _ _ _ => rfl) items

theorem fieldTokens_eq (fields : List (String × Value)) :
    fieldTokens fields = separated tokensOfField .comma fields :=
  eq_separated rfl (fun _ => rfl) (fun _ _ _ => rfl) fields

theorem separates_items : Separates valueTokens (fun _ => True) .comma .closeArray where
  apart := nofun
  atSeparator _ := trivial
  atClose _ := trivial
  notFirst w s t := by cases w <;> simp [valueTokens]

theorem separates_fields : Separates tokensOfField (fun _ => True) .comma .closeObject where
  apart := nofun
  atSeparator _ := trivial
  atClose _ := trivial
  notFirst field s t := by simp [tokensOfField]

mutual

/-- No two values have the same tokens, and no tokens of a value are the beginning of others. -/
theorem cancels : (v : Value) → Cancels valueTokens id (fun _ => True) v
  | .null | .bool _ | .int _ | .float _ | .text _ => by
    intro w s t _ _ same
    cases w <;> simp_all [valueTokens]
  | .array items => by
    intro w s t _ _ same
    cases w with
    | array others =>
      simp only [valueTokens, itemTokens_eq, List.cons_append, List.append_assoc,
        List.nil_append, List.cons.injEq, true_and] at same
      obtain ⟨keys, rfl⟩ := separates_items.cancel (items_cancels items) same
      exact ⟨congrArg Value.array (by simpa using keys), rfl⟩
    | _ => simp [valueTokens] at same
  | .record fields => by
    intro w s t _ _ same
    cases w with
    | record others =>
      simp only [valueTokens, fieldTokens_eq, List.cons_append, List.append_assoc,
        List.nil_append, List.cons.injEq, true_and] at same
      obtain ⟨keys, rfl⟩ := separates_fields.cancel (fields_cancels fields) same
      exact ⟨congrArg Value.record (by simpa using keys), rfl⟩
    | _ => simp [valueTokens] at same

theorem items_cancels :
    (items : List Value) → ∀ v ∈ items, Cancels valueTokens id (fun _ => True) v
  | [], _, member => nomatch member
  | v :: rest, u, member => by
    rcases List.mem_cons.mp member with same | later
    · exact same ▸ cancels v
    · exact items_cancels rest u later

theorem fields_cancels : (fields : List (String × Value)) →
    ∀ field ∈ fields, Cancels tokensOfField id (fun _ => True) field
  | [], _, member => nomatch member
  | (key, v) :: rest, field, member => by
    rcases List.mem_cons.mp member with rfl | later
    · intro other s t _ _ same
      obtain ⟨otherKey, w⟩ := other
      simp only [tokensOfField, List.cons_append, List.cons.injEq, Token.text.injEq,
        true_and] at same
      obtain ⟨rfl, same⟩ := same
      obtain ⟨rfl, rfl⟩ := cancels v w s t trivial trivial same
      exact ⟨rfl, rfl⟩
    · exact fields_cancels rest field later

end

theorem valueTokens_injective {v w : Value} (same : valueTokens v = valueTokens w) : v = w :=
  (cancels v w [] [] trivial trivial (by rw [same])).1

end RecordQuery.Json

/-- Values are compared by their tokens, which are a plain list. -/
instance : DecidableEq RecordQuery.Value := fun _ _ =>
  decidable_of_iff _ ⟨RecordQuery.Json.valueTokens_injective, congrArg _⟩
