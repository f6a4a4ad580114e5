import WasmBindings.Proofs.Outcome
import WasmBindings.Proofs.TypeTable

/-!
Which casts count for a method.  The scan of a tree is a list of sightings, each of which is one
reference to a parameter inside a cast; the tables hold the first sighting for each key and
position.
-/

namespace WasmBindings.Casts

/-- A parameter seen in a cast: the body of its method, its position and the type of the cast. -/
structure Sighting where
  body : Body
  index : Int
  type : String

def entries (key : Body → String) (ss : List Sighting) : List TypeEntry :=
  ss.map fun s => ⟨key s.body, s.index, s.type⟩

def note (casts : Casts) (s : Sighting) : Casts :=
  casts.record s.body.key s.body.arityKey s.index s.type

theorem byMethod_foldl_note (casts : Casts) (ss : List Sighting) :
    (ss.foldl note casts).byMethod = casts.byMethod.enterAll (entries Body.key ss) := by
  induction ss generalizing casts with
  | nil => rfl
  | cons s ss ih => exact ih (casts.note s)

theorem byArity_foldl_note (casts : Casts) (ss : List Sighting) :
    (ss.foldl note casts).byArity = casts.byArity.enterAll (entries Body.arityKey ss) := by
  induction ss generalizing casts with
  | nil => rfl
  | cons s ss ih => exact ih (casts.note s)

def Body.sightings (b : Body) (cast : Json) : Except Fault (List Sighting) := do
  let type ← castType cast
  if !isEnumType type then return []
  let refs ← (Tree.nodes cast).mapM paramRef?
  return (refs.filterMap fun r => r.bind b.index.get?).map fun (i : Nat) => ⟨b, i, type⟩

def bodyOf? (v : Json) : Except Fault (Option Body) := do
  let params ← Method.paramNodes v
  if params.isEmpty then return none
  let types ← params.mapM fun p => return Spelling.normalize (← Tree.spellingOr p "void")
  let name := ((v.field? "name").bind Json.text?).getD ""
  return some ⟨Signature.key name types, Signature.arityKey name params.length,
    ← paramIndex params⟩

def definitionSightings (v : Json) : Except Fault (List Sighting) := do
  match ← bodyOf? v with
  | none => return []
  | some b => Tree.gather isCast b.sightings (Tree.nodes v)

def sightings (tree : Json) (names : List String) : Except Fault (List Sighting) :=
  Tree.gather (isNamedMethod names) definitionSightings (Tree.nodes tree)

theorem addCast_eq (b : Body) (casts : Casts) (cast : Json) :
    addCast b casts cast = (b.sightings cast).map (List.foldl note casts) := by
  rw [addCast, Body.sightings]
  cases castType cast with
  | error f => rfl
  | ok type =>
    simp only [bind, Except.bind]
    split
    · rfl
    · cases (Tree.nodes cast).mapM paramRef? with
      | error f => rfl
      | ok refs => simp [Except.map, pure, Except.pure, List.foldl_map, note]

def addBody (casts : Casts) (v : Json) : Option Body → Except Fault Casts
  | none => return casts
  | some b => do (← Tree.select isCast (Tree.nodes v)).foldlM (addCast b) casts

theorem addMethod_eq_bind (casts : Casts) (v : Json) :
    addMethod casts v = bodyOf? v >>= addBody casts v := by
  rw [addMethod, bodyOf?, bind_assoc]
  congr 1
  funext params
  split
  · rfl
  · simp only [bind_assoc, pure_bind, addBody]

theorem addMethod_eq (casts : Casts) (v : Json) :
    addMethod casts v = (definitionSightings v).map (List.foldl note casts) := by
  rw [addMethod_eq_bind, definitionSightings]
  rcases bodyOf? v with f | _ | b
  · rfl
  · rfl
  · exact Tree.foldlM_select isCast (addCast_eq b) (Tree.nodes v) casts

theorem collect_eq (tree : Json) (names : List String) :
    collect tree names = (sightings tree names).map (List.foldl note empty) :=
  Tree.foldlM_select (isNamedMethod names) addMethod_eq (Tree.nodes tree) empty

structure Defines (tree : Json) (names : List String) (v : Json) (b : Body) : Prop where
  node : v ∈ Tree.nodes tree
  named : isNamedMethod names v = .ok true
  body : bodyOf? v = .ok (some b)

structure Tells (b : Body) (cast : Json) (index : Int) (type : String) : Prop where
  target : castType cast = .ok type
  fits : isEnumType type = true
  refers : ∃ ref ∈ Tree.nodes cast, ∃ id, paramRef? ref = .ok (some id) ∧
    ∃ i : Nat, b.index.get? id = some i ∧ index = i

/-- A definition with the body `b` casts its parameter at a position to a type. -/
def Told (tree : Json) (names : List String) (b : Body) (index : Int) (type : String) : Prop :=
  ∃ v, Defines tree names v b ∧
    ∃ cast ∈ Tree.nodes v, isCast cast = .ok true ∧ Tells b cast index type

theorem Body.mem_sightings {b : Body} {cast : Json} {ss : List Sighting}
    (h : b.sightings cast = .ok ss) {s : Sighting} :
    s ∈ ss ↔ s.body = b ∧ Tells b cast s.index s.type := by
  obtain ⟨type, htype, h⟩ := Outcome.bind_eq_ok.1 h
  split at h
  · next hfits =>
    cases h
    have hnone : ¬ Tells b cast s.index s.type := by
      rintro ⟨htarget, hs, -⟩
      rw [htype] at htarget
      cases htarget
      simp [hs] at hfits
    simp [hnone]
  · next hfits =>
    obtain ⟨refs, hrefs, h⟩ := Outcome.bind_eq_ok.1 h
    cases h
    have hmem : ∀ r, r ∈ refs ↔ ∃ ref ∈ Tree.nodes cast, paramRef? ref = .ok r := fun r =>
      Outcome.mem_of_mapM_eq_ok hrefs
    simp only [List.mem_map, List.mem_filterMap, Option.bind_eq_some_iff]
    constructor
    · rintro ⟨i, ⟨r, hr, id, rfl, hi⟩, rfl⟩
      obtain ⟨ref, href, hid⟩ := (hmem _).1 hr
      exact ⟨rfl, htype, by simpa using hfits, ref, href, id, hid, i, hi, rfl⟩
    · rintro ⟨rfl, htarget, -, ref, href, id, hid, i, hi, hindex⟩
      rw [htype] at htarget
      cases htarget
      exact ⟨i, ⟨_, (hmem _).2 ⟨ref, href, hid⟩, id, rfl, hi⟩, by rw [← hindex]⟩

theorem mem_definitionSightings {v : Json} {ss : List Sighting}
    (h : definitionSightings v = .ok ss) {s : Sighting} :
    s ∈ ss ↔ bodyOf? v = .ok (some s.body) ∧
      ∃ cast ∈ Tree.nodes v, isCast cast = .ok true ∧ Tells s.body cast s.index s.type := by
  obtain ⟨body, hbody, h⟩ := Outcome.bind_eq_ok.1 h
  cases body with
  | none =>
    cases h
    simp [hbody]
  | some b =>
    rw [Tree.mem_gather h fun cast list => Body.mem_sightings (s := s), hbody]
    constructor
    · rintro ⟨cast, hcast, his, rfl, htells⟩
      exact ⟨rfl, cast, hcast, his, htells⟩
    · rintro ⟨hb, cast, hcast, his, htells⟩
      cases hb
      exact ⟨cast, hcast, his, rfl, htells⟩

theorem mem_sightings {tree : Json} {names : List String} {ss : List Sighting}
    (h : sightings tree names = .ok ss) {s : Sighting} :
    s ∈ ss ↔ Told tree names s.body s.index s.type := by
  rw [Tree.mem_gather h fun v list => mem_definitionSightings (s := s)]
  constructor
  · rintro ⟨v, hv, hnamed, hbody, hcast⟩
    exact ⟨v, ⟨hv, hnamed, hbody⟩, hcast⟩
  · rintro ⟨v, ⟨hv, hnamed, hbody⟩, hcast⟩
    exact ⟨v, hv, hnamed, hbody, hcast⟩

theorem mem_entries {tree : Json} {names : List String} {ss : List Sighting}
    (h : sightings tree names = .ok ss) (bodyKey : Body → String) {key type : String}
    {index : Int} : ⟨key, index, type⟩ ∈ entries bodyKey ss ↔
      ∃ b, bodyKey b = key ∧ Told tree names b index type := by
  rw [entries, List.mem_map]
  constructor
  · rintro ⟨s, hs, he⟩
    cases he
    exact ⟨s.body, rfl, (mem_sightings h).1 hs⟩
  · rintro ⟨b, rfl, htold⟩
    exact ⟨⟨b, index, type⟩, (mem_sightings h).2 htold, rfl⟩

def typeFor? (casts : Casts) (m : Method) (index : Int) : Option String :=
  (casts.forMethod m).bind (·.get? index)

theorem nodup_keys_of_forMethod {ss : List Sighting} {m : Method} {types : Table Int String}
    (h : (ss.foldl note empty).forMethod m = some types) : types.keys.Nodup := by
  have hempty : Table.DistinctPositions [] := by
    intro key types h
    cases h
  rw [forMethod, byMethod_foldl_note, byArity_foldl_note, Option.or_eq_some_iff] at h
  rcases h with h | ⟨-, h⟩
  · exact hempty.enterAll _ m.key types h
  · exact hempty.enterAll _ m.arityKey types h

theorem isSome_get?_byMethod {ss : List Sighting} {key : String} :
    ((ss.foldl note empty).byMethod.get? key).isSome = true ↔ ∃ s ∈ ss, s.body.key = key := by
  rw [byMethod_foldl_note, Table.isSome_get?_enterAll]
  simp [empty, entries]

theorem typeFor?_of_seen {ss : List Sighting} {m : Method} (h : ∃ s ∈ ss, s.body.key = m.key)
    (index : Int) : (ss.foldl note empty).typeFor? m index =
      TypeEntry.first? (entries Body.key ss) m.key index := by
  obtain ⟨types, htypes⟩ := Option.isSome_iff_exists.1 (isSome_get?_byMethod.2 h)
  have hat := Table.getAt?_enterAll empty.byMethod (entries Body.key ss) m.key index
  rw [← byMethod_foldl_note, Table.getAt?, htypes] at hat
  rw [typeFor?, forMethod, htypes]
  exact hat

theorem typeFor?_of_unseen {ss : List Sighting} {m : Method}
    (h : ¬ ∃ s ∈ ss, s.body.key = m.key) (index : Int) :
    (ss.foldl note empty).typeFor? m index =
      TypeEntry.first? (entries Body.arityKey ss) m.arityKey index := by
  have hnone := Option.not_isSome_iff_eq_none.1 (mt isSome_get?_byMethod.1 h)
  have hat := Table.getAt?_enterAll empty.byArity (entries Body.arityKey ss) m.arityKey index
  rw [← byArity_foldl_note, Table.getAt?] at hat
  rw [typeFor?, forMethod, hnone]
  exact hat

theorem exists_sighting_iff {tree : Json} {names : List String} {ss : List Sighting}
    (h : sightings tree names = .ok ss) {key : String} :
    (∃ s ∈ ss, s.body.key = key) ↔ ∃ b, b.key = key ∧ ∃ i type, Told tree names b i type := by
  constructor
  · rintro ⟨s, hs, hkey⟩
    exact ⟨s.body, hkey, s.index, s.type, (mem_sightings h).1 hs⟩
  · rintro ⟨b, hkey, i, type, htold⟩
    exact ⟨⟨b, i, type⟩, (mem_sightings h).2 htold, hkey⟩

variable {tree : Json} {names : List String} {casts : Casts}

/-- The cast types of a method come from definitions with its exact key, provided that one of
these casts a parameter at all or that no definition with its name and number of parameters
does.  A definition with the exact key that has no such cast does not keep those of other
definitions away. -/
theorem typeFor?_exact_iff (h : collect tree names = .ok casts) (m : Method) :
    (∀ i type, casts.typeFor? m i = some type → ∃ b, b.key = m.key ∧ Told tree names b i type) ↔
      (∃ b, b.key = m.key ∧ ∃ i type, Told tree names b i type) ∨
        ¬ ∃ b, b.arityKey = m.arityKey ∧ ∃ i type, Told tree names b i type := by
  rw [collect_eq] at h
  obtain ⟨ss, hss, rfl⟩ := Outcome.map_eq_ok.1 h
  by_cases hseen : ∃ s ∈ ss, s.body.key = m.key
  · simp only [typeFor?_of_seen hseen]
    have htold := (exists_sighting_iff hss).1 hseen
    refine iff_of_true ?_ (.inl htold)
    intro i type hfirst
    exact (mem_entries hss Body.key).1 (TypeEntry.mem_of_first? hfirst)
  · -- without a cast under the exact key the name and the number of parameters decide
    simp only [typeFor?_of_unseen hseen, ← exists_sighting_iff hss, hseen, false_or]
    constructor
    · rintro hexact ⟨b, hkey, i, type, htold⟩
      have hmem := (mem_entries hss Body.arityKey).2 ⟨b, hkey, htold⟩
      obtain ⟨first, hfirst⟩ := TypeEntry.exists_first? hmem
      obtain ⟨b', hkey', htold'⟩ := hexact i first hfirst
      exact hseen ((exists_sighting_iff hss).2 ⟨b', hkey', i, first, htold'⟩)
    · intro hnone i type hfirst
      obtain ⟨b, hkey, htold⟩ := (mem_entries hss Body.arityKey).1 (TypeEntry.mem_of_first? hfirst)
      exact absurd ⟨b, hkey, i, type, htold⟩ hnone

/-- Of the casts of a parameter in the definitions with a key, the first in the order of the tree
is to this type. -/
def FirstTold (tree : Json) (names : List String) (key : String) (index : Int) (type : String) :
    Prop :=
  ∃ ss, sightings tree names = .ok ss ∧
    TypeEntry.first? (entries Body.key ss) key index = some type

theorem exists_firstTold (h : collect tree names = .ok casts) {b : Body} {index : Int}
    {type : String} (htold : Told tree names b index type) :
    ∃ first, FirstTold tree names b.key index first := by
  rw [collect_eq] at h
  obtain ⟨ss, hss, rfl⟩ := Outcome.map_eq_ok.1 h
  have hmem := (mem_entries hss Body.key).2 ⟨b, rfl, htold⟩
  obtain ⟨first, hfirst⟩ := TypeEntry.exists_first? hmem
  exact ⟨first, ss, hss, hfirst⟩

theorem FirstTold.typeFor? (h : collect tree names = .ok casts) {m : Method} {index : Int}
    {type : String} (hfirst : FirstTold tree names m.key index type) :
    casts.typeFor? m index = some type := by
  obtain ⟨ss, hss, hfirst⟩ := hfirst
  rw [collect_eq, hss] at h
  cases h
  obtain ⟨b, hkey, htold⟩ := (mem_entries hss Body.key).1 (TypeEntry.mem_of_first? hfirst)
  have hseen := (exists_sighting_iff hss).2 ⟨b, hkey, index, type, htold⟩
  exact (typeFor?_of_seen hseen index).trans hfirst

theorem nodup_keys_of_collect (h : collect tree names = .ok casts) (m : Method)
    (types : Table Int String) (htypes : casts.forMethod m = some types) : types.keys.Nodup := by
  rw [collect_eq] at h
  obtain ⟨ss, -, rfl⟩ := Outcome.map_eq_ok.1 h
  exact nodup_keys_of_forMethod htypes

def nodeOf (kind : String) (fields : List (String × Json)) (inner : List Json) : Json :=
  .obj (("kind", .str kind) :: fields ++ [("inner", .arr inner)])

def typeField (spelling : String) : String × Json := ("type", .obj [("qualType", .str spelling)])

def paramNode (id type : String) : Json := nodeOf "ParmVarDecl" [("id", .str id), typeField type] []

def refNode (id : String) : Json :=
  nodeOf "DeclRefExpr" [("referencedDecl", nodeOf "ParmVarDecl" [("id", .str id)] [])] []

def definitionNode (name : String) (params body : List Json) : Json :=
  nodeOf "CXXMethodDecl" [("name", .str name)] (params ++ [nodeOf "CompoundStmt" [] body])

def trimByRate : Json := definitionNode "SetTrim" [paramNode "0x1" "double"] []

def trimByMode : Json :=
  definitionNode "SetTrim" [paramNode "0x2" "int"]
    [nodeOf "CXXStaticCastExpr" [typeField "TrimMode"] [refNode "0x2"]]

def trimOverloads : Json := nodeOf "TranslationUnitDecl" [] [trimByRate, trimByMode]

deriving instance DecidableEq for Body, Sighting

def trimByModeBody : Body := ⟨"SetTrim(int)", "SetTrim#1", [("0x2", 0)]⟩

theorem sightings_trimOverloads : sightings trimOverloads ["SetTrim"] =
    .ok [⟨trimByModeBody, 0, "TrimMode"⟩] := by decide +kernel

def trimCasts : Casts := [⟨trimByModeBody, 0, "TrimMode"⟩].foldl note empty

theorem collect_trimOverloads : collect trimOverloads ["SetTrim"] = .ok trimCasts := by
  rw [collect_eq, sightings_trimOverloads]
  rfl

def setTrim (type : String) : Method := ⟨"SetTrim", "void", [⟨"value", type, none⟩], .empty⟩

theorem told_trimOverloads {b : Body} {i : Int} {type : String}
    (h : Told trimOverloads ["SetTrim"] b i type) : b.key = "SetTrim(int)" := by
  have hmem := (mem_sightings sightings_trimOverloads (s := ⟨b, i, type⟩)).2 h
  cases List.mem_singleton.1 hmem
  rfl

theorem typeFor?_setTrim_rate :
    collect trimOverloads ["SetTrim"] = .ok trimCasts ∧
      (∃ v b, Defines trimOverloads ["SetTrim"] v b ∧ b.key = (setTrim "double").key) ∧
      trimCasts.typeFor? (setTrim "double") 0 = some "TrimMode" ∧
      ¬ ∃ b, b.key = (setTrim "double").key ∧ Told trimOverloads ["SetTrim"] b 0 "TrimMode" := by
  refine ⟨collect_trimOverloads, ⟨trimByRate, ⟨"SetTrim(double)", "SetTrim#1", [("0x1", 0)]⟩,
    ⟨?_, by decide +kernel, by decide +kernel⟩, by decide +kernel⟩, by decide +kernel, ?_⟩
  · have hnodes : Tree.nodes trimOverloads =
        trimOverloads :: Tree.walk [trimByRate, trimByMode] := by
      have hobject : trimOverloads.isObject = true := rfl
      rw [Tree.nodes, if_pos hobject, Tree.walk_cons]
      rfl
    rw [hnodes, Tree.walk_cons]
    exact List.mem_cons_of_mem _ List.mem_cons_self
  · rintro ⟨b, hkey, htold⟩
    rw [told_trimOverloads htold] at hkey
    exact absurd hkey (by decide +kernel)

theorem typeFor?_setTrim_mode :
    collect trimOverloads ["SetTrim"] = .ok trimCasts ∧
      trimCasts.typeFor? (setTrim "int") 0 = some "TrimMode" ∧
      ∀ i type, trimCasts.typeFor? (setTrim "int") i = some type →
        ∃ b, b.key = (setTrim "int").key ∧ Told trimOverloads ["SetTrim"] b i type := by
  refine ⟨collect_trimOverloads, by decide +kernel, ?_⟩
  rw [typeFor?_exact_iff collect_trimOverloads]
  have htold := (mem_sightings sightings_trimOverloads).1 (List.mem_singleton_self _)
  exact .inl ⟨_, by decide +kernel, _, _, htold⟩

end WasmBindings.Casts
