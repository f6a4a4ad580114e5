import Mathlib.Data.List.Nodup
import WasmBindings.Overload
import WasmBindings.Proofs.Distinct

namespace WasmBindings

@[simp] theorem Overload.method_ofMethod (c : Converter) (data : Metadata) (m : Method) :
    (Overload.ofMethod c data m).method = m := rfl

namespace MethodGroup

open Naming (camelCase)

/-- Two of the methods have different names and the same API name. -/
def Colliding (methods : List Method) : Prop :=
  ∃ m ∈ methods, ∃ m' ∈ methods, m.name ≠ m'.name ∧ camelCase m.name = camelCase m'.name

theorem Colliding.append {methods : List Method} (h : Colliding methods) (more : List Method) :
    Colliding (methods ++ more) := by
  obtain ⟨m, hm, m', hm', hne, hcamel⟩ := h
  exact ⟨m, List.mem_append_left _ hm, m', List.mem_append_left _ hm', hne, hcamel⟩

theorem Colliding.of_concat {methods : List Method} {m : Method}
    (hm : Colliding (methods ++ [m])) (h : ¬ Colliding methods) :
    ∃ m' ∈ methods, m'.name ≠ m.name ∧ camelCase m'.name = camelCase m.name := by
  obtain ⟨a, ha, b, hb, hne, hcamel⟩ := hm
  rcases List.mem_append.1 ha with ha | ha <;> rcases List.mem_append.1 hb with hb | hb
  · exact absurd ⟨a, ha, b, hb, hne, hcamel⟩ h
  · cases List.mem_singleton.1 hb
    exact ⟨a, ha, hne, hcamel⟩
  · cases List.mem_singleton.1 ha
    exact ⟨b, hb, hne.symm, hcamel.symm⟩
  · cases List.mem_singleton.1 ha
    cases List.mem_singleton.1 hb
    exact absurd rfl hne

def names (methods : List Method) : List String := (methods.map (·.name)).eraseDups

theorem mem_names {methods : List Method} {n : String} :
    n ∈ names methods ↔ ∃ m ∈ methods, m.name = n := by
  simp [names]

theorem camelCase_ne {methods : List Method} (h : ¬ Colliding methods) {n n' : String}
    (hn : n ∈ names methods) (hn' : n' ∈ names methods) (hne : n ≠ n') :
    camelCase n ≠ camelCase n' := by
  intro hcamel
  obtain ⟨m, hm, rfl⟩ := mem_names.1 hn
  obtain ⟨m', hm', rfl⟩ := mem_names.1 hn'
  exact h ⟨m, hm, m', hm', hne, hcamel⟩

theorem names_split {methods : List Method} {n : String} (hn : n ∈ names methods) :
    ∃ before after, names methods = before ++ n :: after ∧ ∀ n' ∈ before ++ after, n' ≠ n := by
  obtain ⟨before, after, hsplit⟩ := List.append_of_mem hn
  have hnodup : (before ++ n :: after).Nodup := hsplit ▸ Distinct.nodup_eraseDups _
  rw [List.nodup_middle] at hnodup
  exact ⟨before, after, hsplit, fun n' hn' e => (List.nodup_cons.1 hnodup).1 (e ▸ hn')⟩

theorem names_concat_of_mem {methods : List Method} {m : Method} (h : m.name ∈ names methods) :
    names (methods ++ [m]) = names methods := by
  rw [names, List.map_append]
  exact Distinct.eraseDups_concat_of_mem (List.mem_eraseDups.1 h)

theorem names_concat_of_not_mem {methods : List Method} {m : Method} (h : m.name ∉ names methods) :
    names (methods ++ [m]) = names methods ++ [m.name] := by
  rw [names, List.map_append]
  exact Distinct.eraseDups_concat_of_not_mem fun hm => h (List.mem_eraseDups.2 hm)

variable (c : Converter) (data : Metadata)

def ofName (methods : List Method) (name : String) : MethodGroup :=
  ⟨camelCase name, name, (methods.filter (·.name = name)).map (Overload.ofMethod c data)⟩

def grouping (methods : List Method) : List MethodGroup :=
  (names methods).map (ofName c data methods)

theorem ofName_concat_of_ne {methods : List Method} {m : Method} {n : String} (h : n ≠ m.name) :
    ofName c data (methods ++ [m]) n = ofName c data methods n := by
  simp [ofName, h.symm]

theorem ofName_concat_self (methods : List Method) (m : Method) :
    ofName c data (methods ++ [m]) m.name =
      { ofName c data methods m.name with
        overloads := (ofName c data methods m.name).overloads ++ [Overload.ofMethod c data m] } := by
  simp [ofName]

theorem add_append {o : Overload} {before : List MethodGroup}
    (h : ∀ g ∈ before, g.camelName ≠ camelCase o.method.name) (rest : List MethodGroup) :
    add o (before ++ rest) = (before ++ ·) <$> add o rest := by
  induction before with
  | nil => simp
  | cons g before ih =>
    have hg : (g.camelName == camelCase o.method.name) = false := by
      simpa using h g List.mem_cons_self
    have hbefore := ih fun g' hg' => h g' (List.mem_cons_of_mem g hg')
    rw [List.cons_append, add, hg, hbefore]
    cases add o rest <;> rfl

theorem add_grouping_at {methods : List Method} (h : ¬ Colliding methods) {o : Overload}
    {n : String} {before after : List String} (hsplit : names methods = before ++ n :: after)
    (hne : ∀ n' ∈ before ++ after, n' ≠ n) (hcamel : camelCase n = camelCase o.method.name) :
    add o (grouping c data methods) = (before.map (ofName c data methods) ++ ·) <$>
      add o (ofName c data methods n :: after.map (ofName c data methods)) := by
  rw [grouping, hsplit, List.map_append, List.map_cons, add_append]
  intro g hg
  obtain ⟨n', hn', rfl⟩ := List.mem_map.1 hg
  rw [← hcamel]
  exact camelCase_ne h (by simp [hsplit, hn']) (by simp [hsplit])
    (hne n' (List.mem_append_left _ hn'))

theorem add_grouping_of_mem {methods : List Method} {m : Method} (h : ¬ Colliding methods)
    (hm : m.name ∈ names methods) :
    add (Overload.ofMethod c data m) (grouping c data methods) =
      .ok (grouping c data (methods ++ [m])) := by
  obtain ⟨before, after, hsplit, hne⟩ := names_split hm
  have hsame : ∀ ns ⊆ before ++ after,
      ns.map (ofName c data (methods ++ [m])) = ns.map (ofName c data methods) := by
    intro ns hns
    apply List.map_congr_left
    intro n hn
    exact ofName_concat_of_ne c data (hne n (hns hn))
  calc
    add (Overload.ofMethod c data m) (grouping c data methods)
      = (before.map (ofName c data methods) ++ ·) <$> add (Overload.ofMethod c data m)
          (ofName c data methods m.name :: after.map (ofName c data methods)) := by
        apply add_grouping_at c data h hsplit hne
        rw [Overload.method_ofMethod]
    _ = .ok (before.map (ofName c data methods) ++ ofName c data (methods ++ [m]) m.name ::
          after.map (ofName c data methods)) := by
        rw [ofName_concat_self, add, Overload.method_ofMethod]
        simp [ofName]
    _ = .ok (grouping c data (methods ++ [m])) := by
        rw [grouping, names_concat_of_mem hm, hsplit, List.map_append, List.map_cons,
          hsame before (List.subset_append_left _ _), hsame after (List.subset_append_right _ _)]

theorem add_grouping_of_not_mem {methods : List Method} {m : Method}
    (h : ¬ Colliding (methods ++ [m])) (hm : m.name ∉ names methods) :
    add (Overload.ofMethod c data m) (grouping c data methods) =
      .ok (grouping c data (methods ++ [m])) := by
  have hne : ∀ n ∈ names methods, n ≠ m.name := fun n hn e => hm (e ▸ hn)
  have hcamel : ∀ g ∈ grouping c data methods,
      g.camelName ≠ camelCase (Overload.ofMethod c data m).method.name := by
    intro g hg hcamel
    obtain ⟨n, hn, rfl⟩ := List.mem_map.1 hg
    obtain ⟨m', hm', rfl⟩ := mem_names.1 hn
    exact h ⟨m', by simp [hm'], m, by simp, hne m'.name hn, hcamel⟩
  have hold : (names methods).map (ofName c data (methods ++ [m])) = grouping c data methods := by
    apply List.map_congr_left
    intro n hn
    exact ofName_concat_of_ne c data (hne n hn)
  have hnew : methods.filter (·.name = m.name) = [] := by
    rw [List.filter_eq_nil_iff]
    intro m' hm' he
    exact hm (mem_names.2 ⟨m', hm', by simpa using he⟩)
  have hgroups : grouping c data (methods ++ [m]) =
      grouping c data methods ++ [ofName c data (methods ++ [m]) m.name] := by
    rw [grouping, names_concat_of_not_mem hm, List.map_append, hold, List.map_singleton]
  rw [← List.append_nil (grouping c data methods), add_append hcamel, hgroups,
    ofName_concat_self]
  simp [add, ofName, hnew]

theorem add_grouping_ok {methods : List Method} {m : Method} (h : ¬ Colliding (methods ++ [m])) :
    add (Overload.ofMethod c data m) (grouping c data methods) =
      .ok (grouping c data (methods ++ [m])) := by
  by_cases hm : m.name ∈ names methods
  · exact add_grouping_of_mem c data (fun hc => h (hc.append [m])) hm
  · exact add_grouping_of_not_mem c data h hm

theorem add_grouping_error {methods : List Method} {m m' : Method} (h : ¬ Colliding methods)
    (hm' : m' ∈ methods) (hne : m'.name ≠ m.name) (hcamel : camelCase m'.name = camelCase m.name) :
    add (Overload.ofMethod c data m) (grouping c data methods) =
      .error (collision m'.name m.name (camelCase m'.name)) := by
  obtain ⟨before, after, hsplit, hothers⟩ := names_split (mem_names.2 ⟨m', hm', rfl⟩)
  rw [add_grouping_at c data h hsplit hothers (by rw [hcamel, Overload.method_ofMethod]), add,
    Overload.method_ofMethod]
  simp [ofName, hcamel, hne]

theorem foldlM_add_ok (done : List Method) {rest : List Method} (h : ¬ Colliding (done ++ rest)) :
    rest.foldlM (fun groups m => add (Overload.ofMethod c data m) groups) (grouping c data done) =
      .ok (grouping c data (done ++ rest)) := by
  induction rest generalizing done with
  | nil => simp [pure, Except.pure]
  | cons m rest ih =>
    have hrest : ¬ Colliding ((done ++ [m]) ++ rest) := by simpa using h
    have hstep : ¬ Colliding (done ++ [m]) := fun hc => hrest (hc.append rest)
    rw [List.foldlM_cons, add_grouping_ok c data hstep]
    simpa [bind, Except.bind] using ih (done ++ [m]) hrest

theorem foldlM_add_error (done : List Method) {rest : List Method} (hdone : ¬ Colliding done)
    (h : Colliding (done ++ rest)) :
    ∃ m ∈ done ++ rest, ∃ m' ∈ done ++ rest, m.name ≠ m'.name ∧
      camelCase m.name = camelCase m'.name ∧
      rest.foldlM (fun groups m => add (Overload.ofMethod c data m) groups) (grouping c data done) =
        .error (collision m.name m'.name (camelCase m.name)) := by
  induction rest generalizing done with
  | nil => exact absurd (by simpa using h) hdone
  | cons m rest ih =>
    rw [List.foldlM_cons]
    by_cases hstep : Colliding (done ++ [m])
    · obtain ⟨m', hm', hne, hcamel⟩ := hstep.of_concat hdone
      refine ⟨m', by simp [hm'], m, by simp, hne, hcamel, ?_⟩
      rw [add_grouping_error c data hdone hm' hne hcamel]
      rfl
    · rw [add_grouping_ok c data hstep]
      rw [List.append_cons] at h ⊢
      exact ih (done ++ [m]) hstep h

def kept (ignored : List String) (methods : List Method) : List Method :=
  methods.filter (·.name ∉ ignored)

theorem build_eq_foldlM (ignored : List String) (methods : List Method) :
    build c data ignored methods = (kept ignored methods).foldlM
      (fun groups m => add (Overload.ofMethod c data m) groups) (grouping c data []) := by
  have hkept : (methods.filter fun m => !ignored.contains m.name) = kept ignored methods := by
    apply List.filter_congr
    intro m _
    simp
  rw [build, hkept]
  rfl

theorem build_ok {ignored : List String} {methods : List Method}
    (h : ¬ Colliding (kept ignored methods)) :
    build c data ignored methods = .ok (grouping c data (kept ignored methods)) := by
  rw [build_eq_foldlM]
  exact foldlM_add_ok c data [] h

theorem build_collision {ignored : List String} {methods : List Method}
    (h : Colliding (kept ignored methods)) :
    ∃ m ∈ kept ignored methods, ∃ m' ∈ kept ignored methods, m.name ≠ m'.name ∧
      camelCase m.name = camelCase m'.name ∧
      build c data ignored methods = .error (collision m.name m'.name (camelCase m.name)) := by
  rw [build_eq_foldlM]
  exact foldlM_add_error c data [] (by simp [Colliding]) h

theorem build_error {ignored : List String} {methods : List Method}
    (h : Colliding (kept ignored methods)) :
    ∃ first second, build c data ignored methods =
      .error (collision first second (camelCase first)) := by
  obtain ⟨m, -, m', -, -, -, he⟩ := build_collision c data h
  exact ⟨m.name, m'.name, he⟩

theorem nodup_camelName {methods : List Method} (h : ¬ Colliding methods) :
    ((grouping c data methods).map (·.camelName)).Nodup := by
  have hcamel : (grouping c data methods).map (·.camelName) = (names methods).map camelCase := by
    simp [grouping, ofName]
  rw [hcamel]
  apply List.Nodup.map_on
  · intro n hn n' hn' he
    exact Decidable.byContradiction fun hne => camelCase_ne h hn hn' hne he
  · exact Distinct.nodup_eraseDups _

theorem methods_perm (methods : List Method) :
    (((grouping c data methods).flatMap (·.overloads)).map (·.method)).Perm methods := by
  have hparts : ((grouping c data methods).flatMap (·.overloads)).map (·.method) =
      (names methods).flatMap fun n => methods.filter (·.name = n) := by
    simp [grouping, ofName, List.flatMap_map, List.map_flatMap, Function.comp_def]
  rw [hparts]
  apply Distinct.flatMap_filter_perm
  · exact Distinct.nodup_eraseDups _
  · intro m hm
    exact mem_names.2 ⟨m, hm, rfl⟩

/-- Building fails exactly when two names share an API name.  Otherwise there is one group for
each name, in the order of first declaration, and each method that is not ignored is in the group
of its name, exactly as often and in the order in which it is declared. -/
theorem build_groups (ignored : List String) (methods : List Method) :
    ((∃ d, build c data ignored methods = .error (.diagnosed d) ∧ d.kind = .nameCollision) ↔
      Colliding (kept ignored methods)) ∧
    (¬ Colliding (kept ignored methods) → ∃ groups, build c data ignored methods = .ok groups ∧
      (groups.map (·.camelName)).Nodup ∧
      (∀ g ∈ groups, g.camelName = camelCase g.sourceName ∧
        g.overloads = ((kept ignored methods).filter (·.name = g.sourceName)).map
          (Overload.ofMethod c data)) ∧
      groups.map (·.sourceName) = ((kept ignored methods).map (·.name)).eraseDups ∧
      ((groups.flatMap (·.overloads)).map (·.method)).Perm (kept ignored methods)) := by
  refine ⟨⟨?_, ?_⟩, ?_⟩
  · rintro ⟨d, hd, -⟩
    by_contra h
    rw [build_ok c data h] at hd
    cases hd
  · intro h
    obtain ⟨first, second, he⟩ := build_error c data h
    exact ⟨_, he, rfl⟩
  · intro h
    refine ⟨_, build_ok c data h, nodup_camelName c data h, ?_, ?_, methods_perm c data _⟩
    · intro g hg
      obtain ⟨n, -, rfl⟩ := List.mem_map.1 hg
      exact ⟨rfl, rfl⟩
    · simp [grouping, ofName, names, Function.comp_def]

end MethodGroup

end WasmBindings
