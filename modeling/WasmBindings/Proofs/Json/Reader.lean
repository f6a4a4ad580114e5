import WasmBindings.Proofs.Documents

namespace WasmBindings.Json

open Documents

theorem length_skipGap_le (s : List Char) : (skipGap s).length ≤ s.length :=
  (reaches_skipGap s).length_le

def ValueSettled (fuel : Nat) : Prop :=
  ∀ s, 2 * s.length < fuel → readValue (fuel + 1) s = readValue fuel s

/-- Items start where their first value does, so they need one step more than the value. -/
def ItemsSettled (fuel : Nat) : Prop :=
  ∀ s, 2 * s.length + 1 < fuel → readItems (fuel + 1) s = readItems fuel s

def FieldsSettled (fuel : Nat) : Prop :=
  ∀ s, 2 * s.length + 1 < fuel → readFields (fuel + 1) s = readFields fuel s

theorem ValueSettled.succ {fuel : Nat} (hi : ItemsSettled fuel) (hf : FieldsSettled fuel) :
    ValueSettled (fuel + 1) := by
  intro s hs
  rw [readValue.eq_def (fuel + 1 + 1), readValue.eq_def (fuel + 1)]
  dsimp only
  split
  · rfl
  · next r =>
    have hr := length_skipGap_le r
    rw [List.length_cons] at hs
    split
    · rfl
    · rw [hi (skipGap r) (by omega)]
  · next r =>
    have hr := length_skipGap_le r
    rw [List.length_cons] at hs
    split
    · rfl
    · rw [hf (skipGap r) (by omega)]
  · rfl

theorem ItemsSettled.succ {fuel : Nat} (hv : ValueSettled fuel) (hi : ItemsSettled fuel) :
    ItemsSettled (fuel + 1) := by
  intro s hs
  rw [readItems, readItems, hv s (by omega)]
  cases hread : readValue fuel s with
  | none => rfl
  | some p =>
    obtain ⟨v, r⟩ := p
    have hr := ((reaches_of_read fuel).1 s v r hread).length_le
    have hgap := length_skipGap_le r
    simp only [Option.bind_eq_bind, Option.bind_some]
    split
    · rfl
    · next t ht =>
      have hrest := length_skipGap_le t
      rw [ht, List.length_cons] at hgap
      rw [hi (skipGap t) (by omega)]
    · rfl

theorem FieldsSettled.succ {fuel : Nat} (hv : ValueSettled fuel) (hf : FieldsSettled fuel) :
    FieldsSettled (fuel + 1) := by
  intro s hs
  rw [readFields.eq_def (fuel + 1 + 1), readFields.eq_def (fuel + 1)]
  dsimp only
  split
  · next r =>
    rw [List.length_cons] at hs
    cases hkey : readText r with
    | none => rfl
    | some p =>
      obtain ⟨key, t⟩ := p
      have ht := (reaches_of_readText hkey).length_le
      have hgap := length_skipGap_le t
      simp only [Option.bind_eq_bind, Option.bind_some]
      split
      · next u hu =>
        have hu' := length_skipGap_le u
        rw [hu, List.length_cons] at hgap
        rw [hv (skipGap u) (by omega)]
        cases hread : readValue fuel (skipGap u) with
        | none => rfl
        | some q =>
          obtain ⟨v, x⟩ := q
          have hx := ((reaches_of_read fuel).1 _ v x hread).length_le
          have hgap' := length_skipGap_le x
          simp only [Option.bind_some]
          split
          · rfl
          · next y hy =>
            have hrest := length_skipGap_le y
            rw [hy, List.length_cons] at hgap'
            rw [hf (skipGap y) (by omega)]
          · rfl
      · rfl
  · rfl

theorem settled (fuel : Nat) : ValueSettled fuel ∧ ItemsSettled fuel ∧ FieldsSettled fuel := by
  induction fuel with
  | zero => simp [ValueSettled, ItemsSettled, FieldsSettled]
  | succ fuel ih =>
    obtain ⟨hv, hi, hf⟩ := ih
    exact ⟨.succ hi hf, .succ hv hi, .succ hv hf⟩

theorem readValue_of_le {s : List Char} {n m : Nat} (hs : 2 * s.length < n) (h : n ≤ m) :
    readValue m s = readValue n s := by
  induction m, h using Nat.le_induction with
  | base => rfl
  | succ m h ih => rw [(settled m).1 s (by omega), ih]

/-- Two steps a character are fuel enough, and more of it changes nothing. -/
theorem read_of_fuel {s : List Char} {fuel : Nat} (h : 2 * s.length < fuel) :
    read s = match readValue fuel (skipGap s) with
      | some (v, rest) => if (skipGap rest).isEmpty then some v else none
      | none => none := by
  have hs := length_skipGap_le s
  have hleast : ∀ m, 2 * s.length < m →
      readValue m (skipGap s) = readValue (2 * s.length + 1) (skipGap s) :=
    fun m hm => readValue_of_le (by omega) hm
  rw [hleast fuel h, ← hleast (2 * s.length + 2) (by omega)]
  rfl

end WasmBindings.Json
