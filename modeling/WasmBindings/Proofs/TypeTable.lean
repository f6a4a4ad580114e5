import WasmBindings.Metadata.Casts

namespace WasmBindings

namespace Table

theorem get?_insertNew {κ α : Type} [DecidableEq κ] (t : Table κ α) (k j : κ) (a : α) :
    (t.insertNew k a).get? j = (t.get? j).or (if j = k then some a else none) := by
  rw [insertNew]
  split
  · next hk =>
    by_cases hj : j = k
    · subst hj
      obtain ⟨b, hb⟩ := Option.isSome_iff_exists.1 hk
      simp [hb]
    · simp [hj]
  · have hlast : get? [(k, a)] j = if j = k then some a else none := by
      simp [get?_cons]
    rw [get?, List.lookup_append, ← get?, ← get?, hlast]

theorem contains_iff {κ α : Type} [DecidableEq κ] {t : Table κ α} {k : κ} :
    t.contains k = true ↔ k ∈ t.keys := by
  induction t with
  | nil => simp [contains, keys]
  | cons e t ih =>
    obtain ⟨j, b⟩ := e
    simp only [contains, get?_cons, keys, List.map_cons, List.mem_cons] at ih ⊢
    by_cases hk : k = j
    · simp [hk]
    · simpa [hk] using ih

theorem nodup_keys_insertNew {κ α : Type} [DecidableEq κ] {t : Table κ α} (h : t.keys.Nodup)
    (k : κ) (a : α) : (t.insertNew k a).keys.Nodup := by
  rw [keys_insertNew]
  split
  · exact h
  · next hk =>
    rw [contains_iff] at hk
    exact List.nodup_append.2 ⟨h, by simp, by grind⟩

theorem keys_insert {κ α : Type} [BEq κ] [LawfulBEq κ] (t : Table κ α) (k : κ) (a : α) :
    (t.insert k a).keys = if k ∈ t.keys then t.keys else t.keys ++ [k] := by
  induction t with
  | nil => simp [insert, keys]
  | cons e t ih =>
    obtain ⟨j, b⟩ := e
    rw [insert]
    by_cases hk : k = j
    · simp [keys, hk]
    · simp only [keys, List.map_cons, List.mem_cons, hk, false_or, beq_iff_eq, if_false] at ih ⊢
      rw [ih]
      split <;> simp [*]

theorem nodup_keys_insert {κ α : Type} [BEq κ] [LawfulBEq κ] {t : Table κ α} (h : t.keys.Nodup)
    (k : κ) (a : α) : (t.insert k a).keys.Nodup := by
  rw [keys_insert]
  split
  · exact h
  · next hk =>
    exact List.nodup_append.2 ⟨h, by simp, by grind⟩

theorem findSome?_of_nodup {κ α β : Type} [DecidableEq κ] {t : Table κ α} (h : t.keys.Nodup)
    (k : κ) (f : α → Option β) :
    (t.findSome? fun e => if e.1 = k then f e.2 else none) = (t.get? k).bind f := by
  induction t with
  | nil => rfl
  | cons e t ih =>
    obtain ⟨j, a⟩ := e
    obtain ⟨hfresh, ht⟩ := List.nodup_cons.1 h
    rw [List.findSome?_cons, ih ht, get?_cons]
    by_cases hk : j = k
    · subst hk
      have hnone : get? t j = none := by
        rw [← Option.not_isSome_iff_eq_none]
        exact mt contains_iff.1 hfresh
      cases hf : f a <;> simp [hnone, hf]
    · simp [hk, Ne.symm hk]

def getAt? (t : Table String (Table Int String)) (key : String) (index : Int) : Option String :=
  (t.get? key).bind (·.get? index)

variable (t : Table String (Table Int String)) (key k : String) (index i : Int) (type : String)

theorem getAt?_insertNewAt :
    (t.insertNewAt key index type).getAt? k i =
      (t.getAt? k i).or (if key = k ∧ index = i then some type else none) := by
  simp only [getAt?, insertNewAt]
  by_cases hk : k = key
  · subst hk
    rw [get?_insert_self, Option.bind_some, get?_insertNew]
    cases t.get? k <;> simp [eq_comm]
  · rw [get?_insert_of_ne t _ hk]
    simp [Ne.symm hk]

theorem isSome_get?_insertNewAt :
    ((t.insertNewAt key index type).get? k).isSome = (decide (key = k) || (t.get? k).isSome) := by
  rw [insertNewAt]
  by_cases hk : k = key
  · subst hk
    simp
  · rw [get?_insert_of_ne t _ hk]
    simp [Ne.symm hk]

def DistinctPositions (t : Table String (Table Int String)) : Prop :=
  ∀ key types, t.get? key = some types → types.keys.Nodup

variable {t} in
theorem DistinctPositions.insertNewAt (h : t.DistinctPositions) :
    (t.insertNewAt key index type).DistinctPositions := by
  intro k types ht
  rw [Table.insertNewAt] at ht
  by_cases hk : k = key
  · subst hk
    rw [get?_insert_self] at ht
    cases ht
    apply nodup_keys_insertNew
    cases hget : t.get? k with
    | none => exact List.nodup_nil
    | some types => exact h k types hget
  · rw [get?_insert_of_ne t _ hk] at ht
    exact h k types ht

end Table

structure TypeEntry where
  key : String
  index : Int
  type : String
  deriving DecidableEq

namespace TypeEntry

def isAt (key : String) (index : Int) (e : TypeEntry) : Bool := e.key == key && e.index == index

def first? (entries : List TypeEntry) (key : String) (index : Int) : Option String :=
  (entries.find? (isAt key index)).map (·.type)

theorem first?_cons (e : TypeEntry) (entries : List TypeEntry) (key : String) (index : Int) :
    first? (e :: entries) key index =
      (if e.key = key ∧ e.index = index then some e.type else none).or
        (first? entries key index) := by
  rw [first?, List.find?_cons]
  by_cases h : e.key = key ∧ e.index = index
  · simp [isAt, h]
  · have hat : isAt key index e = false := by simpa [isAt] using h
    simp [hat, h, first?]

theorem first?_append (entries more : List TypeEntry) (key : String) (index : Int) :
    first? (entries ++ more) key index =
      (first? entries key index).or (first? more key index) := by
  simp [first?, List.find?_append, Option.map_or]

theorem first?_flatMap {α : Type} (f : α → List TypeEntry) (xs : List α) (key : String)
    (index : Int) :
    first? (xs.flatMap f) key index = xs.findSome? fun x => first? (f x) key index := by
  induction xs with
  | nil => rfl
  | cons x xs ih =>
    rw [List.flatMap_cons, first?_append, ih, List.findSome?_cons]
    cases first? (f x) key index <;> rfl

theorem mem_of_first? {entries : List TypeEntry} {key type : String} {index : Int}
    (h : first? entries key index = some type) : ⟨key, index, type⟩ ∈ entries := by
  obtain ⟨⟨k, i, t⟩, he, rfl⟩ := Option.map_eq_some_iff.1 h
  have hat := List.find?_some he
  simp only [isAt, Bool.and_eq_true, beq_iff_eq] at hat
  obtain ⟨rfl, rfl⟩ := hat
  exact List.mem_of_find?_eq_some he

theorem first?_eq_none {entries : List TypeEntry} {key : String} {index : Int}
    (h : ∀ type, ⟨key, index, type⟩ ∉ entries) : first? entries key index = none := by
  rw [Option.eq_none_iff_forall_ne_some]
  intro type hfirst
  exact h type (mem_of_first? hfirst)

theorem exists_first? {entries : List TypeEntry} {key type : String} {index : Int}
    (h : ⟨key, index, type⟩ ∈ entries) : ∃ t, first? entries key index = some t := by
  rw [← Option.isSome_iff_exists, first?, Option.isSome_map, List.find?_isSome]
  exact ⟨_, h, by simp [isAt]⟩

end TypeEntry

namespace Table

def enterAll (t : Table String (Table Int String)) (entries : List TypeEntry) :
    Table String (Table Int String) :=
  entries.foldl (fun t e => t.insertNewAt e.key e.index e.type) t

theorem enterAll_append (t : Table String (Table Int String)) (entries more : List TypeEntry) :
    t.enterAll (entries ++ more) = (t.enterAll entries).enterAll more :=
  List.foldl_append

theorem getAt?_enterAll (t : Table String (Table Int String)) (entries : List TypeEntry)
    (key : String) (index : Int) :
    (t.enterAll entries).getAt? key index =
      (t.getAt? key index).or (TypeEntry.first? entries key index) := by
  induction entries generalizing t with
  | nil => simp [enterAll, TypeEntry.first?]
  | cons e entries ih =>
    have hstep := ih (t.insertNewAt e.key e.index e.type)
    rw [getAt?_insertNewAt, Option.or_assoc, ← TypeEntry.first?_cons] at hstep
    exact hstep

theorem isSome_get?_enterAll (t : Table String (Table Int String)) (entries : List TypeEntry)
    (key : String) :
    ((t.enterAll entries).get? key).isSome = true ↔
      (t.get? key).isSome = true ∨ ∃ e ∈ entries, e.key = key := by
  induction entries generalizing t with
  | nil => simp [enterAll]
  | cons e entries ih =>
    have hstep := ih (t.insertNewAt e.key e.index e.type)
    rw [isSome_get?_insertNewAt] at hstep
    simp only [enterAll, List.foldl_cons] at hstep ⊢
    rw [hstep]
    simp [or_assoc, or_left_comm]

theorem DistinctPositions.enterAll {t : Table String (Table Int String)}
    (h : t.DistinctPositions) (entries : List TypeEntry) :
    (t.enterAll entries).DistinctPositions := by
  induction entries generalizing t with
  | nil => exact h
  | cons e entries ih => exact ih (h.insertNewAt e.key e.index e.type)

end Table

end WasmBindings
