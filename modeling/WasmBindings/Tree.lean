import WasmBindings.Json.Basic

namespace WasmBindings.Tree

/-- The entries of the child list; not all of them need be nodes. -/
def children (v : Json) : List Json :=
  match v.field? "inner" with
  | some (.arr items) => items
  | _ => []

theorem sizeOf_children_lt {v : Json} (h : children v ≠ []) :
    sizeOf (children v) < sizeOf v := by
  unfold children at h ⊢
  split at h
  · next items heq =>
    cases v with
    | obj fields =>
      have hlt := Json.sizeOf_of_get? (by simpa using heq)
      simp at hlt ⊢
      omega
    | _ => simp [Json.field?] at heq
  · simp at h

theorem one_le_sizeOf (v : Json) : 1 ≤ sizeOf v := by
  cases v <;> simp

theorem sizeOf_children_le (v : Json) : sizeOf (children v) ≤ sizeOf v := by
  by_cases h : children v = []
  · rw [h, List.nil.sizeOf_spec]
    exact one_le_sizeOf v
  · exact Nat.le_of_lt (sizeOf_children_lt h)

theorem sizeOf_lt_of_mem_children {v c : Json} (h : c ∈ children v) : sizeOf c < sizeOf v := by
  have h₁ := List.sizeOf_lt_of_mem h
  have h₂ := sizeOf_children_lt (List.ne_nil_of_mem h)
  omega

theorem sizeOf_append (s t : List Json) : sizeOf (s ++ t) + 1 = sizeOf s + sizeOf t := by
  induction s with
  | nil => rw [List.nil_append, List.nil.sizeOf_spec, Nat.add_comm]
  | cons a s ih =>
    rw [List.cons_append, List.cons.sizeOf_spec, List.cons.sizeOf_spec]
    omega

theorem sizeOf_filter_le (p : Json → Bool) (s : List Json) : sizeOf (s.filter p) ≤ sizeOf s := by
  induction s with
  | nil => simp
  | cons a s ih =>
    rw [List.filter_cons]
    split <;> simp only [List.cons.sizeOf_spec] <;> omega

def walk : List Json → List Json
  | [] => []
  | v :: stack => v :: walk ((children v).filter Json.isObject ++ stack)
termination_by stack => sizeOf stack
decreasing_by
  have h₁ := sizeOf_append ((children v).filter Json.isObject) stack
  have h₂ := sizeOf_filter_le Json.isObject (children v)
  have h₃ := sizeOf_children_le v
  rw [List.cons.sizeOf_spec]
  omega

def nodes (v : Json) : List Json := if v.isObject then walk [v] else []

def preorder (v : Json) : List Json :=
  if v.isObject then v :: ((children v).attach.map fun c => preorder c.1).flatten else []
termination_by sizeOf v
decreasing_by exact sizeOf_lt_of_mem_children c.2

def findAll (p : Json → Bool) (v : Json) : List Json := (nodes v).filter p

def find? (p : Json → Bool) (v : Json) : Option Json := (nodes v).find? p

def hasKind (kind : String) (v : Json) : Bool := v.fieldIs "kind" kind

@[simp] theorem walk_nil : walk [] = [] := by rw [walk]

theorem walk_cons (v : Json) (stack : List Json) :
    walk (v :: stack) = v :: walk ((children v).filter Json.isObject ++ stack) := by rw [walk]

end WasmBindings.Tree
