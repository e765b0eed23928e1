namespace RecordQuery

section

variable {ε α β : Type} {x : Except ε α}

/-- What goes on behind a first result has only a result if there is that first one. -/
theorem exists_of_bind_ok {f : α → Except ε β} {b : β} (bound : x >>= f = .ok b) :
    ∃ a, x = .ok a ∧ f a = .ok b := by
  cases x with
  | error e => cases bound
  | ok a => exact ⟨a, rfl, bound⟩

theorem exists_of_map_ok {f : α → β} {b : β} (mapped : x.map f = .ok b) :
    ∃ a, x = .ok a ∧ f a = b := by
  cases x with
  | error e => cases mapped
  | ok a => exact ⟨a, rfl, Except.ok.inj mapped⟩

/-- Telling an error differently makes no result of it. -/
theorem ok_of_mapError_ok {f : ε → β} {a : α} (mapped : x.mapError f = .ok a) : x = .ok a := by
  cases x with
  | error e => cases mapped
  | ok b => exact congrArg Except.ok (Except.ok.inj mapped)

/-- What goes on behind a first result fails if that one does or if the rest does. -/
theorem of_bind_error {f : α → Except ε β} {e : ε} (failed : x >>= f = .error e) :
    x = .error e ∨ ∃ a, x = .ok a ∧ f a = .error e := by
  cases x with
  | error e' => exact .inl (congrArg Except.error (Except.error.inj failed))
  | ok a => exact .inr ⟨a, rfl, failed⟩

theorem error_of_map_error {f : α → β} {e : ε} (failed : x.map f = .error e) : x = .error e := by
  cases x with
  | error e' => exact congrArg Except.error (Except.error.inj failed)
  | ok a => cases failed

theorem exists_of_mapError_error {f : ε → β} {e : β} (failed : x.mapError f = .error e) :
    ∃ e', x = .error e' ∧ f e' = e := by
  cases x with
  | error e' => exact ⟨e', rfl, Except.error.inj failed⟩
  | ok a => cases failed

theorem toOption_eq_some {a : α} : x.toOption = some a ↔ x = .ok a := by
  cases x <;> simp [Except.toOption]

end

section

variable {ε α β : Type} {f : α → Except ε β} {as : List α} {bs : List β}

theorem mapM_ok {g : α → β} (found : ∀ a ∈ as, f a = .ok (g a)) :
    as.mapM f = .ok (as.map g) := by
  induction as with
  | nil => rfl
  | cons a rest ih =>
    have first := found a (List.mem_cons_self ..)
    have later := ih fun b member => found b (List.mem_cons_of_mem _ member)
    rw [List.mapM_cons, first, later]
    rfl

theorem exists_of_mapM_cons_ok {a : α} {rest : List α} (read : (a :: rest).mapM f = .ok bs) :
    ∃ b tail, f a = .ok b ∧ rest.mapM f = .ok tail ∧ bs = b :: tail := by
  rw [List.mapM_cons] at read
  obtain ⟨b, first, read⟩ := exists_of_bind_ok read
  obtain ⟨tail, later, read⟩ := exists_of_bind_ok read
  exact ⟨b, tail, first, later, (Except.ok.inj read).symm⟩

theorem length_of_mapM_ok (read : as.mapM f = .ok bs) : bs.length = as.length := by
  induction as generalizing bs with
  | nil =>
    cases read
    rfl
  | cons a rest ih =>
    obtain ⟨b, tail, -, later, rfl⟩ := exists_of_mapM_cons_ok read
    rw [List.length_cons, List.length_cons, ih later]

theorem exists_of_mapM_ok (read : as.mapM f = .ok bs) : ∀ b ∈ bs, ∃ a ∈ as, f a = .ok b := by
  induction as generalizing bs with
  | nil =>
    cases read
    exact nofun
  | cons a rest ih =>
    obtain ⟨b, tail, first, later, rfl⟩ := exists_of_mapM_cons_ok read
    refine List.forall_mem_cons.mpr ⟨⟨a, List.mem_cons_self .., first⟩, fun c member => ?_⟩
    obtain ⟨d, among, same⟩ := ih later c member
    exact ⟨d, List.mem_cons_of_mem _ among, same⟩

theorem mapM_ok_congr {ε' : Type} {g : α → Except ε' β}
    (same : ∀ a ∈ as, ∀ b, f a = .ok b → g a = .ok b) (read : as.mapM f = .ok bs) :
    as.mapM g = .ok bs := by
  induction as generalizing bs with
  | nil =>
    cases read
    rfl
  | cons a rest ih =>
    obtain ⟨b, tail, first, later, rfl⟩ := exists_of_mapM_cons_ok read
    have head := same a (List.mem_cons_self ..) b first
    have behind := ih (fun c member => same c (List.mem_cons_of_mem _ member)) later
    rw [List.mapM_cons, head, behind]
    rfl

theorem exists_of_mapM_error {e : ε} (failed : as.mapM f = .error e) :
    ∃ a ∈ as, f a = .error e := by
  induction as with
  | nil => cases failed
  | cons a rest ih =>
    rw [List.mapM_cons] at failed
    rcases of_bind_error failed with first | ⟨b, -, behind⟩
    · exact ⟨a, List.mem_cons_self .., first⟩
    rcases of_bind_error behind with later | ⟨tail, -, last⟩
    · obtain ⟨c, member, wrong⟩ := ih later
      exact ⟨c, List.mem_cons_of_mem _ member, wrong⟩
    · cases last

end

end RecordQuery
