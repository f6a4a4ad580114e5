namespace WasmBindings

abbrev Table (κ : Type) (α : Type) := List (κ × α)

namespace Table

variable {κ α : Type} [BEq κ]

def get? (t : Table κ α) (k : κ) : Option α := t.lookup k

def keys (t : Table κ α) : List κ := t.map Prod.fst

def contains (t : Table κ α) (k : κ) : Bool := (t.get? k).isSome

def insert : Table κ α → κ → α → Table κ α
  | [], k, a => [(k, a)]
  | (j, b) :: t, k, a => if k == j then (j, a) :: t else (j, b) :: insert t k a

def insertNew (t : Table κ α) (k : κ) (a : α) : Table κ α :=
  if t.contains k then t else t ++ [(k, a)]

def ofList (entries : List (κ × α)) : Table κ α :=
  entries.foldl (fun t e => t.insert e.1 e.2) []

theorem keys_insertNew (t : Table κ α) (k : κ) (a : α) :
    (t.insertNew k a).keys = if t.contains k then t.keys else t.keys ++ [k] := by
  rw [insertNew]
  split <;> simp [keys]

@[simp] theorem get?_nil (k : κ) : get? ([] : Table κ α) k = none := rfl

variable [LawfulBEq κ]

theorem get?_cons (j : κ) (b : α) (t : Table κ α) (k : κ) :
    get? ((j, b) :: t) k = if k == j then some b else get? t k := by
  simp only [get?, List.lookup_cons]
  split <;> simp_all

@[simp] theorem get?_insert_self (t : Table κ α) (k : κ) (a : α) :
    (t.insert k a).get? k = some a := by
  induction t with
  | nil => simp [insert, get?]
  | cons e t ih =>
    obtain ⟨j, b⟩ := e
    rw [insert]
    split <;> simp_all [get?_cons]

theorem get?_insert_of_ne (t : Table κ α) {k j : κ} (a : α) (h : j ≠ k) :
    (t.insert k a).get? j = t.get? j := by
  induction t with
  | nil => simp [insert, get?_cons, h]
  | cons e t ih =>
    obtain ⟨i, b⟩ := e
    rw [insert]
    split
    · next hk =>
      have : k = i := by simpa using hk
      subst this
      simp [get?_cons, h]
    · simp only [get?_cons, ih]

end Table

end WasmBindings
