import RecordQuery.Proofs.Token.Coverage

namespace RecordQuery.Lexeme

/-- A lexeme of the same text with more in front of it. -/
def shift (offset : Nat) (l : Lexeme) : Lexeme :=
  { l with start := l.start + offset, stop := l.stop + offset }

theorem scanFrom_shift (offset start : Nat) (cs : List Char) :
    scanFrom (start + offset) cs = (scanFrom start cs).map (shift offset) := by
  induction start, cs using scanFrom.induct with
  | case1 =>
    rw [scanFrom, scanFrom]
    rfl
  | case2 start c rest space ih =>
    rw [scanFrom_space space, scanFrom_space space, ← ih, Nat.add_right_comm]
  | case3 start c rest visible token more scanned stop ih =>
    have moved : start + offset + c.utf8Size + byteLength (rest.take more) = stop + offset := by
      change _ = start + c.utf8Size + byteLength (rest.take more) + offset
      omega
    rw [scanFrom, scanFrom, if_neg visible, if_neg visible]
    simp only [scanned]
    rw [moved, ih]
    rfl

theorem call?_shift (offset : Nat) (l : Lexeme) :
    (l.shift offset).call? = l.call?.map (shift offset) := by
  obtain ⟨start, stop, token, behind⟩ := l
  unfold call? shift
  dsimp only
  split
  · split
    · rw [Option.map_map]
      refine congrArg (Option.map · _) (funext fun inside => ?_)
      simp only [Function.comp_apply, Lexeme.mk.injEq, true_and, and_true]
      omega
    · rfl
  · rfl

theorem assemble_shift (offset : Nat) (ls : List Lexeme) :
    assemble (ls.map (shift offset)) = (assemble ls).map (shift offset) := by
  induction ls using assemble.induct with
  | case1 =>
    rw [List.map_nil, assemble]
    rfl
  | case2 l rest plain ih =>
    have shifted := call?_shift offset l
    rw [plain] at shifted
    rw [List.map_cons, assemble_plain shifted, assemble_plain plain, ih, List.map_cons]
  | case3 l rest call found ih =>
    have shifted := call?_shift offset l
    rw [found] at shifted
    have inside : (rest.map (shift offset)).dropWhile
        (fun next => decide (next.start < (call.shift offset).stop)) =
          (rest.dropWhile fun next => decide (next.start < call.stop)).map (shift offset) := by
      rw [List.dropWhile_map]
      refine congrArg (fun p => (rest.dropWhile p).map (shift offset)) (funext fun next => ?_)
      simp [shift]
    rw [List.map_cons, assemble, assemble]
    simp only [found, shifted, Option.map_some]
    rw [inside, ih, List.map_cons]

/-- Lexemes do not depend on the byte at which they begin. -/
theorem ofChars_shift (offset start : Nat) (cs : List Char) :
    ofChars (start + offset) cs = (ofChars start cs).map (shift offset) := by
  rw [ofChars, scanFrom_shift, assemble_shift]
  rfl

/-- Of two fronts of a text the longer one begins with the other. -/
theorem exists_append_of_byteLength_le {front own behind rest : List Char}
    (same : front ++ behind = own ++ rest) (le : byteLength own ≤ byteLength front) :
    ∃ more, front = own ++ more ∧ rest = more ++ behind := by
  rcases List.append_eq_append_iff.mp same with ⟨more, rfl, split⟩ | ⟨more, rfl, split⟩
  · rw [byteLength_append] at le
    obtain rfl : more = [] := Classical.byContradiction fun nonempty => by
      have positive := byteLength_pos nonempty
      omega
    exact ⟨[], by simp, split.symm⟩
  · exact ⟨more, rfl, split⟩

section

variable {start : Nat} {front behind : List Char}

/-- Where no lexeme crosses the boundary between two parts of a text, the second one is scanned on
its own. -/
theorem exists_scanFrom_append
    (clean : ∀ l ∈ scanFrom start (front ++ behind), ¬ l.Crosses (start + byteLength front)) :
    ∃ ls, scanFrom start (front ++ behind) = ls ++ scanFrom (start + byteLength front) behind ∧
      ∀ l ∈ ls, l.start < start + byteLength front := by
  generalize whole : front ++ behind = cs at clean ⊢
  induction start, cs using scanFrom.induct generalizing front with
  | case1 start =>
    obtain ⟨rfl, rfl⟩ := List.append_eq_nil_iff.mp whole
    have nothing : scanFrom start [] = [] ++ scanFrom (start + byteLength []) [] := by
      rw [scanFrom, scanFrom]
      rfl
    exact ⟨[], nothing, List.forall_mem_nil _⟩
  | case2 start c rest space ih =>
    cases front with
    | nil =>
      obtain rfl : behind = c :: rest := whole
      exact ⟨[], rfl, List.forall_mem_nil _⟩
    | cons d front =>
      obtain ⟨rfl, later⟩ := List.cons.inj whole
      rw [scanFrom_space space] at clean ⊢
      rw [byteLength, ← Nat.add_assoc] at clean ⊢
      exact ih later clean
  | case3 start c rest visible token more scanned stop =>
    rename_i ih
    rcases eq_or_ne front [] with rfl | nonempty
    · obtain rfl : behind = c :: rest := whole
      exact ⟨[], rfl, List.forall_mem_nil _⟩
    have positive := byteLength_pos nonempty
    have length : start + byteLength (c :: rest.take more) = stop := (Nat.add_assoc ..).symm
    have split : front ++ behind = (c :: rest.take more) ++ rest.drop more := by
      rw [whole, List.cons_append, List.take_append_drop]
    rw [scanFrom, if_neg visible] at clean ⊢
    simp only [scanned] at clean ⊢
    obtain ⟨first, later⟩ := List.forall_mem_cons.mp clean
    have before : start < start + byteLength front := Nat.lt_add_of_pos_right positive
    have reached : stop ≤ start + byteLength front :=
      Nat.not_lt.mp fun beyond => first ⟨before, beyond⟩
    obtain ⟨front, rfl, remaining⟩ := exists_append_of_byteLength_le split (by omega)
    have place : start + byteLength (c :: rest.take more ++ front) = stop + byteLength front := by
      rw [byteLength_append, ← Nat.add_assoc, length]
    rw [place] at later before ⊢
    obtain ⟨ls, scans, inside⟩ := ih remaining.symm later
    exact ⟨_ :: ls, congrArg (_ :: ·) scans, List.forall_mem_cons.mpr ⟨before, inside⟩⟩

end

/-- Where no lexeme crosses a place, calls are put together on either side of it. -/
theorem dropWhile_assemble_append {ls ms : List Lexeme} {place : Nat}
    (before : ∀ l ∈ ls, l.start < place) (behind : ∀ l ∈ ms, place ≤ l.start)
    (clean : ∀ l ∈ assemble (ls ++ ms), ¬ l.Crosses place) :
    (assemble (ls ++ ms)).dropWhile (fun l => l.start < place) = assemble ms := by
  have kept {stop : Nat} (le : stop ≤ place) {ns : List Lexeme} (all : ∀ l ∈ ns, place ≤ l.start) :
      (ns.dropWhile fun next => decide (next.start < stop)) = ns := by
    cases ns with
    | nil => rfl
    | cons n ns =>
      have bound := all n (List.mem_cons_self ..)
      exact List.dropWhile_cons_of_neg (by simp; omega)
  induction ls using assemble.induct with
  | case1 =>
    refine kept (Nat.le_refl _) fun l member => ?_
    obtain ⟨raw, among, begins⟩ := start_of_mem_assemble member
    exact begins ▸ behind raw among
  | case2 l rest plain ih =>
    obtain ⟨first, later⟩ := List.forall_mem_cons.mp before
    rw [List.cons_append, assemble_plain plain] at clean ⊢
    rw [List.dropWhile_cons_of_pos (by simpa using first)]
    exact ih later (List.forall_mem_cons.mp clean).2
  | case3 l rest call found ih =>
    obtain ⟨first, later⟩ := List.forall_mem_cons.mp before
    obtain ⟨_, -, begins, -⟩ := exists_arguments_of_call? found
    have opened : call.start < place := begins ▸ first
    have inside : ∀ n ∈ rest.dropWhile (fun next => decide (next.start < call.stop)),
        n.start < place := fun n member => later n ((List.dropWhile_sublist _).mem member)
    rw [List.cons_append, assemble] at clean ⊢
    simp only [found] at clean ⊢
    obtain ⟨fused, clean⟩ := List.forall_mem_cons.mp clean
    have closed : call.stop ≤ place := Nat.not_lt.mp fun beyond => fused ⟨opened, beyond⟩
    have split : ((rest ++ ms).dropWhile fun next => decide (next.start < call.stop)) =
        (rest.dropWhile fun next => decide (next.start < call.stop)) ++ ms := by
      rw [List.dropWhile_append, kept closed behind]
      split
      · rename_i empty
        rw [List.isEmpty_iff.mp empty, List.nil_append]
      · rfl
    rw [split] at clean ⊢
    rw [List.dropWhile_cons_of_pos (by simpa using opened)]
    exact ih inside clean

/-- Where nothing crosses the boundary between two parts of a text, the lexemes behind it are those
of the second part. -/
theorem dropWhile_ofChars_append {start : Nat} {front behind : List Char}
    (clean : ∀ l, l ∈ scanFrom start (front ++ behind) ∨ l ∈ ofChars start (front ++ behind) →
      ¬ l.Crosses (start + byteLength front)) :
    (ofChars start (front ++ behind)).dropWhile (fun l => l.start < start + byteLength front) =
      ofChars (start + byteLength front) behind := by
  obtain ⟨ls, scans, before⟩ := exists_scanFrom_append fun l member => clean l (.inl member)
  have assembled (l : Lexeme) (member : l ∈ ofChars start (front ++ behind)) := clean l (.inr member)
  rw [ofChars, scans] at assembled ⊢
  exact dropWhile_assemble_append before (fun l member => start_le_of_mem member) assembled

end RecordQuery.Lexeme
