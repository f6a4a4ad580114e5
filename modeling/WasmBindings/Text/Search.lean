namespace WasmBindings.Text

def occursIn (needle : List Char) : List Char → Bool
  | [] => needle.isEmpty
  | c :: r => needle.isPrefixOf (c :: r) || occursIn needle r

def consHead (c : Char) : List (List Char) → List (List Char)
  | [] => [[c]]
  | p :: ps => (c :: p) :: ps

def splitAt (sep : Char) : List Char → List (List Char)
  | [] => [[]]
  | c :: r => if c = sep then [] :: splitAt sep r else consHead c (splitAt sep r)

def without (dropped s : List Char) : List Char := s.filter fun c => !dropped.contains c

@[simp] theorem occursIn_nil_left (s : List Char) : occursIn [] s = true := by
  cases s <;> simp [occursIn]

theorem occursIn_iff {needle s : List Char} : occursIn needle s = true ↔ needle <:+: s := by
  induction s with
  | nil => simp [occursIn]
  | cons c r ih =>
    rw [occursIn, Bool.or_eq_true, ih, List.isPrefixOf_iff_prefix, List.infix_cons_iff]

theorem consHead_ne_nil (c : Char) (ps : List (List Char)) : consHead c ps ≠ [] := by
  cases ps <;> simp [consHead]

theorem splitAt_ne_nil (sep : Char) (s : List Char) : splitAt sep s ≠ [] := by
  cases s with
  | nil => simp [splitAt]
  | cons c r =>
    rw [splitAt]
    split
    · simp
    · exact consHead_ne_nil _ _

theorem splitAt_of_not_mem {sep : Char} {s : List Char} (h : sep ∉ s) : splitAt sep s = [s] := by
  induction s with
  | nil => rfl
  | cons c r ih =>
    have hc : c ≠ sep := fun e => h (e ▸ List.mem_cons_self)
    rw [splitAt, if_neg hc, ih fun m => h (List.mem_cons_of_mem c m), consHead]

theorem splitAt_append {sep : Char} {s : List Char} (h : sep ∉ s) (t : List Char) :
    splitAt sep (s ++ sep :: t) = s :: splitAt sep t := by
  induction s with
  | nil => simp [splitAt]
  | cons c r ih =>
    have hc : c ≠ sep := fun e => h (e ▸ List.mem_cons_self)
    rw [List.cons_append, splitAt, if_neg hc, ih fun m => h (List.mem_cons_of_mem c m), consHead]

theorem splitAt_append_cons (sep : Char) (s t : List Char) :
    splitAt sep (s ++ sep :: t) = splitAt sep s ++ splitAt sep t := by
  induction s with
  | nil => simp [splitAt]
  | cons c r ih =>
    rw [List.cons_append, splitAt, splitAt, ih]
    split
    · rfl
    · obtain ⟨p, ps, hps⟩ := List.exists_cons_of_ne_nil (splitAt_ne_nil sep r)
      rw [hps]
      rfl

@[simp] theorem without_append (dropped s t : List Char) :
    without dropped (s ++ t) = without dropped s ++ without dropped t := by
  simp [without]

end WasmBindings.Text
