import WasmBindings.Proofs.Enumerators
import WasmBindings.Proofs.ExternalEnums
import WasmBindings.Proofs.Tree

namespace WasmBindings.Enumeration

def isNamed (v : Json) : Bool :=
  Tree.hasKind "EnumConstantDecl" v && (v.field? "name").any Json.isTruthy

def HasEnumerator (decl : Json) : Prop := ∃ c ∈ Tree.children decl, isNamed c = true

def declares (name : String) (v : Json) : Bool :=
  Tree.hasKind "EnumDecl" v && v.fieldIs "name" name

def NoTypedef (name : String) (tree : Json) : Prop :=
  ∀ v ∈ Tree.preorder tree, (Tree.hasKind "TypedefDecl" v && v.fieldIs "name" name) = false

theorem membersFrom_ne_nil_iff {next : Int} {vs : List Json} {items : List Enumerator}
    (h : membersFrom next vs = .ok items) : items ≠ [] ↔ ∃ c ∈ vs, isNamed c = true := by
  induction vs generalizing next items with
  | nil =>
    cases h
    simp
  | cons c vs ih =>
    obtain ⟨-, -, h⟩ := Outcome.bind_eq_ok.1 h
    rw [List.exists_mem_cons_iff]
    split at h
    · next name hkind hname =>
      split at h
      · next htruthy =>
        obtain ⟨value, -, h⟩ := Outcome.bind_eq_ok.1 h
        obtain ⟨rest, -, h⟩ := Outcome.bind_eq_ok.1 h
        cases h
        simp [isNamed, hkind, hname, htruthy]
      · next htruthy =>
        rw [ih h]
        simp [isNamed, hname, htruthy]
    · next hother =>
      have hc : isNamed c ≠ true := by
        intro hc
        rw [isNamed, Bool.and_eq_true, Option.any_eq_true] at hc
        obtain ⟨hkind, name, hname, -⟩ := hc
        exact hother name hkind hname
      rw [ih h]
      simp [hc]

theorem hasEnumerator_iff {decl : Json} {items : List Enumerator}
    (h : members decl = .ok items) : HasEnumerator decl ↔ items ≠ [] :=
  (membersFrom_ne_nil_iff h).symm

variable {tree : Json} {simple : String}

theorem find?_findAll (p q : Json → Bool) (tree : Json) :
    (Tree.findAll p tree).find? q = (Tree.preorder tree).find? fun v => p v && q v := by
  rw [Tree.findAll, Tree.nodes_eq_preorder, List.find?_filter]
  simp only [Bool.decide_and, Bool.decide_eq_true]

theorem findDecl?_of_first {first : Json} (qualified : String)
    (htypedef : NoTypedef simple tree)
    (hfirst : (Tree.preorder tree).find? (declares simple) = some first) :
    findDecl? tree simple qualified = .ok (some first) := by
  have htypedefs : Tree.findAll
      (fun v => Tree.hasKind "TypedefDecl" v && v.fieldIs "name" simple) tree = [] := by
    rw [Tree.findAll, Tree.nodes_eq_preorder, List.filter_eq_nil_iff]
    intro v hv
    rw [htypedef v hv]
    exact Bool.false_ne_true
  have hnamed : (Tree.findAll (Tree.hasKind "EnumDecl") tree).find? (·.fieldIs "name" simple) =
      some first := by
    rw [find?_findAll]
    exact hfirst
  rw [findDecl?, htypedefs]
  simp only [viaTypedef?, hnamed]
  rfl

theorem parseExternal_of_first {first : Json} (qualified : String)
    (htypedef : NoTypedef simple tree)
    (hfirst : (Tree.preorder tree).find? (declares simple) = some first) :
    parseExternal tree simple qualified = (members first).map fun items =>
      if items.isEmpty then none else some (external simple qualified items) := by
  rw [parseExternal, findDecl?_of_first qualified htypedef hfirst]
  change (members first >>= fun items => _) = _
  cases members first <;> rfl

/-- Where a declaration of the name has an enumerator, the enumerators of one are found just when
the first declaration of the name has an enumerator and can be read.  A first declaration without
enumerators hides all the others. -/
theorem external_found_iff (tree : Json) (simple qualified : String)
    (htypedef : NoTypedef simple tree)
    (hdecl : ∃ decl ∈ Tree.preorder tree, declares simple decl = true ∧ HasEnumerator decl) :
    ∃ first, (Tree.preorder tree).find? (declares simple) = some first ∧
      ((∃ d, parseExternal tree simple qualified = .ok (some d) ∧
          ∃ decl ∈ Tree.preorder tree, declares simple decl = true ∧ members decl = .ok d.items) ↔
        HasEnumerator first ∧ ∃ items, members first = .ok items) ∧
      (∀ items, members first = .ok items → ¬ HasEnumerator first →
        parseExternal tree simple qualified = .ok none) := by
  obtain ⟨decl, hmem, hdeclares, -⟩ := hdecl
  obtain ⟨first, hfirst⟩ := Option.isSome_iff_exists.1
    (List.find?_isSome.2 ⟨decl, hmem, hdeclares⟩)
  have hparse := parseExternal_of_first qualified htypedef hfirst
  refine ⟨first, hfirst, ⟨?_, ?_⟩, ?_⟩
  · rintro ⟨d, hd, -⟩
    rw [hparse] at hd
    obtain ⟨items, hitems, hd⟩ := Outcome.map_eq_ok.1 hd
    refine ⟨(hasEnumerator_iff hitems).2 ?_, items, hitems⟩
    rintro rfl
    cases hd
  · rintro ⟨hfirst', items, hitems⟩
    have hne : items.isEmpty = false := by
      simpa using (hasEnumerator_iff hitems).1 hfirst'
    refine ⟨external simple qualified items, ?_, first, List.mem_of_find?_eq_some hfirst,
      List.find?_some hfirst, hitems⟩
    rw [hparse, hitems]
    simp [Except.map, hne]
  · intro items hitems hnone
    have hnil : items = [] := by
      simpa [hasEnumerator_iff hitems] using hnone
    rw [hparse, hitems, hnil]
    rfl

open Casts (nodeOf)

def forwardDecl : Json := nodeOf "EnumDecl" [("name", .str "TrimMode")] []

def fullDecl : Json :=
  nodeOf "EnumDecl" [("name", .str "TrimMode")]
    [enumeratorNode "tLongitudinal" [], enumeratorNode "tFull" []]

def unitOf (decls : List Json) : Json := nodeOf "TranslationUnitDecl" [] decls

theorem preorder_unitOf (decls : List Json) :
    Tree.preorder (unitOf decls) = unitOf decls :: decls.flatMap Tree.preorder :=
  Tree.preorder_of_isObject rfl

theorem noTypedef_unitOf {decls : List Json} (h : ∀ decl ∈ decls, NoTypedef simple decl) :
    NoTypedef simple (unitOf decls) := by
  intro v hv
  rw [preorder_unitOf, List.mem_cons, List.mem_flatMap] at hv
  rcases hv with rfl | ⟨decl, hdecl, hv⟩
  · rfl
  · exact h decl hdecl v hv

theorem find?_unitOf {decl : Json} (h : declares simple decl = true) (decls : List Json) :
    (Tree.preorder (unitOf (decl :: decls))).find? (declares simple) = some decl := by
  have hobject : decl.isObject = true :=
    Tree.isObject_of_field? (Tree.field?_of_hasKind (Bool.and_eq_true_iff.1 h).1)
  have hunit : ¬ declares simple (unitOf (decl :: decls)) = true := Bool.false_ne_true
  rw [preorder_unitOf, List.find?_cons_of_neg hunit, List.flatMap_cons,
    Tree.preorder_of_isObject hobject, List.cons_append, List.find?_cons_of_pos h]

theorem noTypedef_forwardDecl : NoTypedef simple forwardDecl := by
  intro v hv
  rw [Tree.preorder_of_isObject rfl] at hv
  obtain rfl := List.mem_singleton.1 hv
  rfl

theorem noTypedef_fullDecl : NoTypedef simple fullDecl := by
  have hnode : ∀ name, Tree.preorder (enumeratorNode name []) = [enumeratorNode name []] :=
    fun _ => Tree.preorder_of_isObject rfl
  have hnodes : Tree.preorder fullDecl =
      [fullDecl, enumeratorNode "tLongitudinal" [], enumeratorNode "tFull" []] := by
    rw [Tree.preorder_of_isObject rfl]
    change fullDecl :: [enumeratorNode "tLongitudinal" [], enumeratorNode "tFull" []].flatMap _ = _
    simp [hnode]
  simp only [NoTypedef, hnodes, List.forall_mem_cons]
  exact ⟨rfl, rfl, rfl, nofun⟩

theorem mem_preorder_fullDecl : fullDecl ∈ Tree.preorder fullDecl := by
  rw [Tree.preorder_of_isObject rfl]
  exact List.mem_cons_self

theorem hasEnumerator_fullDecl : HasEnumerator fullDecl :=
  ⟨enumeratorNode "tFull" [], List.mem_cons_of_mem _ List.mem_cons_self, rfl⟩

theorem members_fullDecl :
    members fullDecl = .ok [⟨.str "tLongitudinal", 0⟩, ⟨.str "tFull", 1⟩] := by
  have hnode : ∀ name, name ≠ "" → Spells (enumeratorNode name []) name none := by
    intro name hname
    exact .implicit ⟨rfl, rfl, hname, rfl⟩ fun c hc => absurd hc List.not_mem_nil
  exact membersFrom_of_lists (.enumerator (hnode _ (by decide)) (.enumerator (hnode _ (by decide))
    .nil)) 0

theorem external_found_fullDecl : ∃ d, parseExternal (unitOf [fullDecl, forwardDecl]) "TrimMode"
    "JSBSim::TrimMode" = .ok (some d) := by
  have htypedef : NoTypedef "TrimMode" (unitOf [fullDecl, forwardDecl]) :=
    noTypedef_unitOf (by simp [noTypedef_fullDecl, noTypedef_forwardDecl])
  have hmem : fullDecl ∈ Tree.preorder (unitOf [fullDecl, forwardDecl]) := by
    simp [preorder_unitOf, mem_preorder_fullDecl]
  obtain ⟨first, hfirst, hfound, -⟩ := external_found_iff _ "TrimMode" "JSBSim::TrimMode" htypedef
    ⟨fullDecl, hmem, rfl, hasEnumerator_fullDecl⟩
  rw [find?_unitOf rfl] at hfirst
  cases hfirst
  obtain ⟨d, hd, -⟩ := hfound.2 ⟨hasEnumerator_fullDecl, _, members_fullDecl⟩
  exact ⟨d, hd⟩

/-- The declaration without enumerators comes first and hides the definition. -/
theorem external_hidden_fullDecl :
    NoTypedef "TrimMode" (unitOf [forwardDecl, fullDecl]) ∧
      fullDecl ∈ Tree.preorder (unitOf [forwardDecl, fullDecl]) ∧
      declares "TrimMode" fullDecl = true ∧ HasEnumerator fullDecl ∧
      parseExternal (unitOf [forwardDecl, fullDecl]) "TrimMode" "JSBSim::TrimMode" =
        .ok none := by
  have htypedef : NoTypedef "TrimMode" (unitOf [forwardDecl, fullDecl]) :=
    noTypedef_unitOf (by simp [noTypedef_fullDecl, noTypedef_forwardDecl])
  have hmem : fullDecl ∈ Tree.preorder (unitOf [forwardDecl, fullDecl]) := by
    simp [preorder_unitOf, mem_preorder_fullDecl]
  refine ⟨htypedef, hmem, rfl, hasEnumerator_fullDecl, ?_⟩
  rw [parseExternal_of_first _ htypedef (find?_unitOf rfl _)]
  rfl

end WasmBindings.Enumeration
