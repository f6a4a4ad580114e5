import Mathlib.Data.List.Basic
import WasmBindings.Proofs.Tree

namespace WasmBindings.Tree

def nodeAt? : Json → List Nat → Option Json
  | v, [] => if v.isObject then some v else none
  | v, i :: rest => (children v)[i]?.bind fun c => nodeAt? c rest

/-- The addresses of all nodes of a tree, in lexicographic order. -/
def places (v : Json) : List (List Nat) :=
  if v.isObject then
    [] :: ((children v).attach.zipIdx.map fun c => (places c.1.1).map (c.2 :: ·)).flatten
  else []
termination_by sizeOf v
decreasing_by exact sizeOf_lt_of_mem_children c.1.2

theorem places_of_isObject {v : Json} (h : v.isObject = true) :
    places v = [] :: (children v).zipIdx.flatMap fun c => (places c.1).map (c.2 :: ·) := by
  have hattach : (children v).zipIdx =
      (children v).attach.zipIdx.map (Prod.map Subtype.val id) := by
    rw [← List.zipIdx_map, List.attach_map_subtype_val]
  rw [places, if_pos h, hattach, List.flatMap_map, List.flatMap_def]
  rfl

theorem places_of_not_isObject {v : Json} (h : v.isObject = false) : places v = [] := by
  rw [places, h, if_neg Bool.false_ne_true]

theorem nodeAt?_nil_of_isObject {v : Json} (h : v.isObject = true) : nodeAt? v [] = some v := by
  rw [nodeAt?, if_pos h]

theorem nodeAt?_cons {v c : Json} {i : Nat} (h : (children v)[i]? = some c) (rest : List Nat) :
    nodeAt? v (i :: rest) = nodeAt? c rest := by
  rw [nodeAt?, h, Option.bind_some]

theorem isObject_of_nodeAt? {v : Json} {a : List Nat} (h : (nodeAt? v a).isSome = true) :
    v.isObject = true := by
  cases a with
  | nil =>
    by_contra hv
    simp [nodeAt?, hv] at h
  | cons i rest =>
    cases hc : (children v)[i]? with
    | none => simp [nodeAt?, hc] at h
    | some c => exact isObject_of_mem_children (List.mem_of_getElem? hc)

theorem pairwise_zipIdx (cs : List Json) : cs.zipIdx.Pairwise fun c d => c.2 < d.2 := by
  have hsnd : (cs.zipIdx.map Prod.snd).Pairwise (· < ·) := by
    rw [List.zipIdx_map_snd]
    exact List.pairwise_lt_range'
  exact List.pairwise_map.1 hsnd

theorem pairwise_places (v : Json) : (places v).Pairwise (· < ·) := by
  induction v using preorder.induct with
  | case1 v hv ih =>
    rw [places_of_isObject hv, List.pairwise_cons, List.pairwise_flatMap]
    refine ⟨?_, ?_, (pairwise_zipIdx (children v)).imp ?_⟩
    · intro a ha
      obtain ⟨c, -, ha⟩ := List.mem_flatMap.1 ha
      obtain ⟨rest, -, rfl⟩ := List.mem_map.1 ha
      exact List.nil_lt_cons _ _
    · intro c hc
      have hchild := ih ⟨c.1, List.fst_mem_of_mem_zipIdx hc⟩
      exact List.pairwise_map.2 (hchild.imp List.cons_lt_cons_self.2)
    · intro c d hlt a ha b hb
      obtain ⟨rest, -, rfl⟩ := List.mem_map.1 ha
      obtain ⟨rest', -, rfl⟩ := List.mem_map.1 hb
      exact List.cons_lt_cons_iff.2 (.inl hlt)
  | case2 v hv =>
    rw [places_of_not_isObject (Bool.eq_false_iff.2 hv)]
    exact List.Pairwise.nil

theorem mem_places {v : Json} {a : List Nat} : a ∈ places v ↔ (nodeAt? v a).isSome = true := by
  induction v using preorder.induct generalizing a with
  | case1 v hv ih =>
    rw [places_of_isObject hv, List.mem_cons, List.mem_flatMap]
    cases a with
    | nil => simp [nodeAt?_nil_of_isObject hv]
    | cons i rest =>
      constructor
      · rintro (h | ⟨⟨c, j⟩, hc, h⟩)
        · cases h
        · obtain ⟨rest', hrest, hcons⟩ := List.mem_map.1 h
          cases hcons
          have hget := List.mem_zipIdx_iff_getElem?.1 hc
          rw [nodeAt?_cons hget]
          exact (ih ⟨c, List.mem_of_getElem? hget⟩).1 hrest
      · intro h
        cases hget : (children v)[i]? with
        | none => simp [nodeAt?, hget] at h
        | some c =>
          rw [nodeAt?_cons hget] at h
          have hrest := (ih ⟨c, List.mem_of_getElem? hget⟩).2 h
          exact .inr ⟨(c, i), List.mem_zipIdx_iff_getElem?.2 hget, List.mem_map_of_mem hrest⟩
  | case2 v hv =>
    rw [places_of_not_isObject (Bool.eq_false_iff.2 hv)]
    constructor
    · intro h
      cases h
    · intro h
      exact absurd (isObject_of_nodeAt? h) hv

theorem map_nodeAt?_places (v : Json) : (places v).map (nodeAt? v) = (preorder v).map some := by
  induction v using preorder.induct with
  | case1 v hv ih =>
    have hchild : ∀ c ∈ (children v).zipIdx,
        ((places c.1).map (c.2 :: ·)).map (nodeAt? v) = (preorder c.1).map some := by
      rintro ⟨c, i⟩ hc
      have hget := List.mem_zipIdx_iff_getElem?.1 hc
      rw [List.map_map, ← ih ⟨c, List.mem_of_getElem? hget⟩]
      exact List.map_congr_left fun rest _ => nodeAt?_cons hget rest
    rw [places_of_isObject hv, preorder_of_isObject hv, List.map_cons, List.map_cons,
      nodeAt?_nil_of_isObject hv, List.map_flatMap, List.map_flatMap, List.flatMap_congr hchild]
    nth_rewrite 2 [← List.zipIdx_map_fst 0 (children v)]
    rw [List.flatMap_map]
  | case2 v hv =>
    have hv' := Bool.eq_false_iff.2 hv
    rw [places_of_not_isObject hv', preorder_of_not_isObject hv']
    rfl

theorem children_eq (v : Json) : children v =
    match v with
    | .obj fields =>
      match fields.lookup "inner" with
      | some (.arr items) => items
      | _ => []
    | _ => [] := by
  cases v <;> rfl

/-- The walk with a stack is the pre-order by recursion, whatever stands under `inner`, and visits
each address once, in lexicographic order.  A search keeps the nodes that pass, or the first. -/
theorem nodes_in_order (v : Json) :
    let inner :=
      match v with
      | .obj fields =>
        match fields.lookup "inner" with
        | some (.arr items) => items
        | _ => []
      | _ => []
    (nodes v = preorder v ∧ children v = inner ∧ preorder v =
      if v.isObject then v :: (inner.filter Json.isObject).flatMap preorder else []) ∧
    ((places v).Pairwise (· < ·) ∧ (∀ a, a ∈ places v ↔ (nodeAt? v a).isSome = true) ∧
      (nodes v).map some = (places v).map (nodeAt? v)) ∧
    ∀ p : Json → Bool, findAll p v = (preorder v).filter p ∧ find? p v = (preorder v).find? p ∧
      find? p v = (findAll p v).head? := by
  intro inner
  have hnodes := nodes_eq_preorder v
  have hinner : children v = inner := children_eq v
  refine ⟨⟨hnodes, hinner, ?_⟩, ⟨pairwise_places v, fun a => mem_places, ?_⟩,
    fun p => ⟨?_, ?_, ?_⟩⟩
  · split
    · next hv => rw [preorder_of_isObject hv, ← hinner, flatMap_preorder_filter]
    · next hv => exact preorder_of_not_isObject (Bool.eq_false_iff.2 hv)
  · rw [map_nodeAt?_places, hnodes]
  · rw [findAll, hnodes]
  · rw [find?, hnodes]
  · rw [find?, findAll, List.head?_filter]

example : (nodes (.obj [("inner", .arr [.null, .obj [("inner", .str "")], .obj []])])).length = 3 ∧
    places (.obj [("inner", .arr [.null, .obj [("inner", .str "")], .obj []])]) =
      [[], [1], [2]] := by
  cbv

end WasmBindings.Tree
