import WasmBindings.Tree

namespace WasmBindings.Tree

theorem preorder_of_isObject {v : Json} (h : v.isObject = true) :
    preorder v = v :: (children v).flatMap preorder := by
  rw [preorder, if_pos h, List.flatMap_def, List.attach_map_val]

theorem preorder_of_not_isObject {v : Json} (h : v.isObject = false) : preorder v = [] := by
  rw [preorder, h, if_neg Bool.false_ne_true]

theorem flatMap_preorder_filter (vs : List Json) :
    (vs.filter Json.isObject).flatMap preorder = vs.flatMap preorder := by
  induction vs with
  | nil => rfl
  | cons v vs ih =>
    cases h : v.isObject with
    | true => simp [h, ih]
    | false => simp [h, ih, preorder_of_not_isObject h]

theorem walk_eq_flatMap_preorder (stack : List Json) (h : ∀ v ∈ stack, v.isObject = true) :
    walk stack = stack.flatMap preorder := by
  fun_induction walk stack with
  | case1 => rfl
  | case2 v stack ih =>
    have hall : ∀ c ∈ (children v).filter Json.isObject ++ stack, c.isObject = true := by
      intro c hc
      rcases List.mem_append.1 hc with hc | hc
      · exact (List.mem_filter.1 hc).2
      · exact h c (List.mem_cons_of_mem v hc)
    rw [ih hall, List.flatMap_append, flatMap_preorder_filter, List.flatMap_cons,
      preorder_of_isObject (h v List.mem_cons_self), List.cons_append]

theorem nodes_eq_preorder (v : Json) : nodes v = preorder v := by
  cases h : v.isObject with
  | true =>
    rw [nodes, h, if_pos rfl, walk_eq_flatMap_preorder [v] (by simp [h]), List.flatMap_singleton]
  | false => rw [nodes, h, if_neg Bool.false_ne_true, preorder_of_not_isObject h]

theorem mem_preorder_self {v : Json} (h : v.isObject = true) : v ∈ preorder v := by
  rw [preorder_of_isObject h]
  exact List.mem_cons_self

theorem isObject_of_mem_children {v c : Json} (h : c ∈ children v) : v.isObject = true := by
  cases v with
  | obj fields => rfl
  | _ => simp [children, Json.field?] at h

theorem preorder_subset_of_mem_children {v c : Json} (h : c ∈ children v) :
    preorder c ⊆ preorder v := by
  intro w hw
  rw [preorder_of_isObject (isObject_of_mem_children h)]
  exact List.mem_cons_of_mem v (List.mem_flatMap.2 ⟨c, h, hw⟩)

theorem preorder_subset {v w : Json} (h : w ∈ preorder v) : preorder w ⊆ preorder v := by
  induction v using preorder.induct with
  | case1 v hv ih =>
    rw [preorder_of_isObject hv] at h
    rcases List.mem_cons.1 h with rfl | h
    · exact List.Subset.refl _
    · obtain ⟨c, hc, hw⟩ := List.mem_flatMap.1 h
      exact List.Subset.trans (ih ⟨c, hc⟩ hw) (preorder_subset_of_mem_children hc)
  | case2 v hv =>
    rw [preorder_of_not_isObject (Bool.eq_false_iff.2 hv)] at h
    cases h

end WasmBindings.Tree
