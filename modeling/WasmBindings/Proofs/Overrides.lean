import Mathlib.Data.List.Sort
import Mathlib.Data.String.Basic
import WasmBindings.Metadata.Build
import WasmBindings.Proofs.Carrier
import WasmBindings.Proofs.Casts

namespace WasmBindings.Metadata

namespace Overrides

section Offers

variable (c : Converter) (m : Method)

def castOffer (cast : Int × String) : List TypeEntry :=
  ((c.resolve? cast.2).map fun d => ⟨m.key, cast.1, d.tsName⟩).toList

def firstOffer (applies : Bool) (d : EnumDef) : List TypeEntry :=
  match m.params with
  | p :: _ =>
    if applies && (c.carrier p.type false).isNumber then [⟨m.key, 0, d.tsName⟩] else []
  | [] => []

def setterOffer (d : EnumDef) : List TypeEntry :=
  firstOffer c m (m.params.length == 1 && m.name == "Set" ++ d.simpleName) d

def flagOffer (d : EnumDef) : List TypeEntry := firstOffer c m (m.name == d.methodName) d

def nameOffers (enums flags : List EnumDef) : List TypeEntry :=
  enums.flatMap (setterOffer c m) ++ flags.flatMap (flagOffer c m)

def offers (enums flags : List EnumDef) (casts : Casts) : List TypeEntry :=
  ((casts.forMethod m).getD []).flatMap (castOffer c m) ++ nameOffers c m enums flags

theorem params_addCast (o : Overrides) (cast : Int × String) :
    (addCast c m.key o cast).params = o.params.enterAll (castOffer c m cast) := by
  rw [addCast, castOffer]
  cases c.resolve? cast.2 <;> rfl

theorem params_addAccessor (o : Overrides) (d : EnumDef) :
    (addAccessor c m o d).params = o.params.enterAll (setterOffer c m d) := by
  have hreturn : ∀ o : Overrides, (if m.name == "Get" ++ d.simpleName && m.params.isEmpty
      && (c.carrier m.returnType true).isNumber then o.setReturn m.key d.tsName else o).params =
        o.params := by
    intro o
    split <;> rfl
  rw [addAccessor, hreturn, setterOffer, firstOffer]
  rcases m.params with _ | ⟨p, _ | ⟨q, rest⟩⟩
  · rfl
  · simp only [List.length_singleton, BEq.rfl, Bool.true_and]
    split <;> rfl
  · simp [Table.enterAll]

theorem params_addFlags (o : Overrides) (d : EnumDef) :
    (addFlags c m o d).params = o.params.enterAll (flagOffer c m d) := by
  rw [addFlags, flagOffer, firstOffer]
  rcases m.params with _ | ⟨p, rest⟩
  · rfl
  · dsimp only
    split <;> rfl

structure ReplacesNumber (e : TypeEntry) : Prop where
  key : e.key = m.key
  index : e.index = 0
  number : ∃ p rest, m.params = p :: rest ∧ (c.carrier p.type false).isNumber = true

theorem replacesNumber_of_mem_firstOffer {applies : Bool} {d : EnumDef} {e : TypeEntry}
    (h : e ∈ firstOffer c m applies d) : ReplacesNumber c m e := by
  rw [firstOffer] at h
  split at h
  · next p rest hp =>
    split at h
    · next hrule =>
      cases List.mem_singleton.1 h
      exact ⟨rfl, rfl, p, rest, hp, (Bool.and_eq_true_iff.1 hrule).2⟩
    · cases h
  · cases h

theorem replacesNumber_of_mem_nameOffers {enums flags : List EnumDef} {e : TypeEntry}
    (h : e ∈ nameOffers c m enums flags) : ReplacesNumber c m e := by
  rcases List.mem_append.1 h with h | h
  · obtain ⟨d, -, h⟩ := List.mem_flatMap.1 h
    exact replacesNumber_of_mem_firstOffer c m h
  · obtain ⟨d, -, h⟩ := List.mem_flatMap.1 h
    exact replacesNumber_of_mem_firstOffer c m h

theorem mem_castOffer {cast : Int × String} {e : TypeEntry} :
    e ∈ castOffer c m cast ↔
      ∃ d, c.resolve? cast.2 = some d ∧ ⟨m.key, cast.1, d.tsName⟩ = e := by
  rw [castOffer, Option.mem_toList, Option.map_eq_some_iff]

theorem key_of_mem_offers {enums flags : List EnumDef} {casts : Casts} {e : TypeEntry}
    (h : e ∈ offers c m enums flags casts) : e.key = m.key := by
  rcases List.mem_append.1 h with h | h
  · obtain ⟨cast, -, h⟩ := List.mem_flatMap.1 h
    obtain ⟨d, -, rfl⟩ := (mem_castOffer c m).1 h
    rfl
  · exact (replacesNumber_of_mem_nameOffers c m h).key

def castTarget? (casts : Casts) (i : Int) : Option String :=
  (casts.typeFor? m i).bind fun type => (c.resolve? type).map (·.tsName)

theorem first?_offers {casts : Casts} (enums flags : List EnumDef)
    (h : ∀ types, casts.forMethod m = some types → types.keys.Nodup) (i : Int) :
    TypeEntry.first? (offers c m enums flags casts) m.key i =
      (castTarget? c m casts i).or (TypeEntry.first? (nameOffers c m enums flags) m.key i) := by
  have hcast : ∀ cast : Int × String, TypeEntry.first? (castOffer c m cast) m.key i =
      if cast.1 = i then (c.resolve? cast.2).map (·.tsName) else none := by
    intro cast
    rw [castOffer]
    cases c.resolve? cast.2 with
    | none => simp [TypeEntry.first?]
    | some d => simp [TypeEntry.first?, TypeEntry.isAt]
  rw [offers, TypeEntry.first?_append, TypeEntry.first?_flatMap]
  simp only [hcast, castTarget?, Casts.typeFor?]
  cases hm : casts.forMethod m with
  | none => rfl
  | some types =>
    -- each position stands once in the table of the method, so its first entry is its only one
    have htypes := Table.findSome?_of_nodup (h types hm) i fun type =>
      (c.resolve? type).map (·.tsName)
    rw [Option.getD_some, htypes, Option.bind_some]

end Offers

theorem params_foldl {α : Type} {step : Overrides → α → Overrides} {offer : α → List TypeEntry}
    (hstep : ∀ o x, (step o x).params = o.params.enterAll (offer x)) (xs : List α)
    (o : Overrides) : (xs.foldl step o).params = o.params.enterAll (xs.flatMap offer) := by
  induction xs generalizing o with
  | nil => rfl
  | cons x xs ih =>
    rw [List.foldl_cons, ih, hstep, List.flatMap_cons, Table.enterAll_append]

variable (c : Converter) (enums flags : List EnumDef) (casts : Casts)

theorem params_addMethod (o : Overrides) (m : Method) :
    (addMethod c enums flags casts o m).params =
      o.params.enterAll (offers c m enums flags casts) := by
  rw [addMethod, params_foldl (params_addFlags c m), params_foldl (params_addAccessor c m),
    params_foldl (params_addCast c m), ← Table.enterAll_append, ← Table.enterAll_append]
  rfl

theorem getAt?_build (methods : List Method) (key : String) (i : Int) :
    (build c enums flags casts methods).params.getAt? key i =
      methods.findSome? fun m => TypeEntry.first? (offers c m enums flags casts) key i := by
  rw [build, params_foldl (params_addMethod c enums flags casts), Table.getAt?_enterAll,
    TypeEntry.first?_flatMap]
  rfl

theorem first?_offers_of_ne {m : Method} {key : String} (h : m.key ≠ key) (i : Int) :
    TypeEntry.first? (offers c m enums flags casts) key i = none :=
  TypeEntry.first?_eq_none fun _ he => h (key_of_mem_offers c m he).symm

theorem first?_nameOffers_of_ne_zero (m : Method) (key : String) {i : Int} (h : i ≠ 0) :
    TypeEntry.first? (nameOffers c m enums flags) key i = none :=
  TypeEntry.first?_eq_none fun _ he => h (replacesNumber_of_mem_nameOffers c m he).index

theorem first?_nameOffers_of_ne {m : Method} {key : String} (h : m.key ≠ key) (i : Int) :
    TypeEntry.first? (nameOffers c m enums flags) key i = none :=
  TypeEntry.first?_eq_none fun _ he => h (replacesNumber_of_mem_nameOffers c m he).key.symm

/-- Where every method with the key offers the same type by its casts, that type comes before what
any of them offers by its name. -/
theorem getAt?_build_of_same {methods : List Method} {m : Method} (hm : m ∈ methods) {i : Int}
    {told : Option String}
    (h : ∀ m' : Method, m'.key = m.key → TypeEntry.first? (offers c m' enums flags casts) m.key i =
      told.or (TypeEntry.first? (nameOffers c m' enums flags) m.key i)) :
    (build c enums flags casts methods).params.getAt? m.key i =
      told.or (methods.findSome? fun m' =>
        TypeEntry.first? (nameOffers c m' enums flags) m.key i) := by
  rw [getAt?_build]
  cases told with
  -- the first method that offers a type may be another than `m`, but it offers the same
  | some t =>
    rw [Option.some_or]
    cases hfind : methods.findSome? fun m' =>
        TypeEntry.first? (offers c m' enums flags casts) m.key i with
    | none =>
      have hnone := List.findSome?_eq_none_iff.1 hfind m hm
      rw [h m rfl, Option.some_or] at hnone
      cases hnone
    | some t' =>
      obtain ⟨m', -, ht⟩ := List.exists_of_findSome?_eq_some hfind
      have hkey := key_of_mem_offers c m' (TypeEntry.mem_of_first? ht)
      rw [h m' hkey.symm, Option.some_or] at ht
      exact ht.symm
  | none =>
    have hnames : ∀ m' : Method, TypeEntry.first? (offers c m' enums flags casts) m.key i =
        TypeEntry.first? (nameOffers c m' enums flags) m.key i := by
      intro m'
      by_cases hkey : m'.key = m.key
      · rw [h m' hkey, Option.none_or]
      · rw [first?_offers_of_ne c enums flags casts hkey,
          first?_nameOffers_of_ne c enums flags hkey]
    simp only [hnames, Option.none_or]

variable {casts} {tree : Json} {names : List String}

/-- The override of a parameter that is cast somewhere is the enumeration of its first cast.  If
that cast names no enumeration, later casts do not count: only the names of the methods do, and
these are about first parameters. -/
theorem getAt?_build_of_told (h : Casts.collect tree names = .ok casts) {methods : List Method}
    {m : Method} (hm : m ∈ methods) {b : Casts.Body} (hb : b.key = m.key) {i : Int} {type : String}
    (htold : Casts.Told tree names b i type) :
    ∃ first, Casts.FirstTold tree names m.key i first ∧
      (build c enums flags casts methods).params.getAt? m.key i =
        ((c.resolve? first).map (·.tsName)).or (methods.findSome? fun m' =>
          TypeEntry.first? (nameOffers c m' enums flags) m.key i) ∧
      (i ≠ 0 → c.resolve? first = none →
        (build c enums flags casts methods).params.getAt? m.key i = none) := by
  obtain ⟨first, hfirst⟩ := Casts.exists_firstTold h htold
  rw [hb] at hfirst
  -- casts are kept by key, so what `m` is told every method with its key is told
  have hsame : ∀ m' : Method, m'.key = m.key →
      TypeEntry.first? (offers c m' enums flags casts) m.key i =
        ((c.resolve? first).map (·.tsName)).or
          (TypeEntry.first? (nameOffers c m' enums flags) m.key i) := by
    intro m' hkey
    rw [← hkey] at hfirst ⊢
    rw [first?_offers c m' enums flags (Casts.nodup_keys_of_collect h m'), castTarget?,
      hfirst.typeFor? h, Option.bind_some]
  have hoverride := getAt?_build_of_same c enums flags casts hm hsame
  refine ⟨first, hfirst, hoverride, ?_⟩
  intro hi hnone
  rw [hoverride, hnone, Option.map_none, Option.none_or, List.findSome?_eq_none_iff]
  intro m' _
  exact first?_nameOffers_of_ne_zero c enums flags m' m.key hi

def discardThenTrim : Json :=
  Casts.definitionNode "DoTrim" [Casts.paramNode "0x2" "int"]
    [Casts.nodeOf "CStyleCastExpr" [Casts.typeField "void"] [Casts.refNode "0x2"],
      Casts.nodeOf "CXXStaticCastExpr" [Casts.typeField "TrimMode"] [Casts.refNode "0x2"]]

def doTrim : Method := ⟨"DoTrim", "void", [⟨"mode", "int", none⟩], .empty⟩

def doTrimBody : Casts.Body := ⟨"DoTrim(int)", "DoTrim#1", [("0x2", 0)]⟩

theorem sightings_discardThenTrim : Casts.sightings discardThenTrim ["DoTrim"] =
    .ok [⟨doTrimBody, 0, "void"⟩, ⟨doTrimBody, 0, "TrimMode"⟩] := by decide +kernel

theorem getAt?_build_discardThenTrim :
    ∃ casts, Casts.collect discardThenTrim ["DoTrim"] = .ok casts ∧
      Casts.Told discardThenTrim ["DoTrim"] doTrimBody 0 "TrimMode" ∧
      doTrimBody.key = doTrim.key ∧
      Converter.executive.resolve? "TrimMode" = some Converter.trimMode ∧
      (build Converter.executive [Converter.trimMode] [] casts [doTrim]).params.getAt?
        doTrim.key 0 = none := by
  have hcollect := Casts.collect_eq discardThenTrim ["DoTrim"]
  rw [sightings_discardThenTrim] at hcollect
  refine ⟨_, hcollect, ?_, by decide +kernel, rfl, by decide +kernel⟩
  exact (Casts.mem_sightings sightings_discardThenTrim).1 (List.mem_cons_of_mem _
    (List.mem_singleton_self _))

theorem getAt?_build_setTrim :
    Casts.collect Casts.trimOverloads ["SetTrim"] = .ok Casts.trimCasts ∧
      Casts.Told Casts.trimOverloads ["SetTrim"] Casts.trimByModeBody 0 "TrimMode" ∧
      (build Converter.executive [Converter.trimMode] [] Casts.trimCasts
        [Casts.setTrim "int"]).params.getAt? (Casts.setTrim "int").key 0 = some "TrimMode" ∧
      ∃ first, Casts.FirstTold Casts.trimOverloads ["SetTrim"] (Casts.setTrim "int").key 0 first ∧
        (build Converter.executive [Converter.trimMode] [] Casts.trimCasts
          [Casts.setTrim "int"]).params.getAt? (Casts.setTrim "int").key 0 =
            ((Converter.executive.resolve? first).map (·.tsName)).or
              ([Casts.setTrim "int"].findSome? fun m' => TypeEntry.first?
                (nameOffers Converter.executive m' [Converter.trimMode] [])
                (Casts.setTrim "int").key 0) := by
  have htold := (Casts.mem_sightings Casts.sightings_trimOverloads).1 (List.mem_singleton_self _)
  obtain ⟨first, hfirst, hoverride, -⟩ := getAt?_build_of_told Converter.executive
    [Converter.trimMode] [] Casts.collect_trimOverloads
    (List.mem_singleton_self (Casts.setTrim "int")) (by decide +kernel) htold
  exact ⟨Casts.collect_trimOverloads, htold, by decide +kernel, first, hfirst, hoverride⟩

theorem castTarget?_eq_some {m : Method} {i : Int} {t : String} :
    castTarget? c m casts i = some t ↔
      ∃ type d, casts.typeFor? m i = some type ∧ c.resolve? type = some d ∧ d.tsName = t := by
  simp [castTarget?, Option.bind_eq_some_iff]

theorem source_of_getAt?_build (h : Casts.collect tree names = .ok casts) {methods : List Method}
    {key t : String} {i : Int}
    (ht : (build c enums flags casts methods).params.getAt? key i = some t) :
    ∃ m ∈ methods, m.key = key ∧
      (castTarget? c m casts i = some t ∨ ReplacesNumber c m ⟨key, i, t⟩) := by
  rw [getAt?_build] at ht
  obtain ⟨m, hm, ht⟩ := List.exists_of_findSome?_eq_some ht
  have hkey := key_of_mem_offers c m (TypeEntry.mem_of_first? ht)
  dsimp only at hkey
  subst hkey
  rw [first?_offers c m enums flags (Casts.nodup_keys_of_collect h m), Option.or_eq_some_iff] at ht
  refine ⟨m, hm, rfl, ht.imp_right ?_⟩
  rintro ⟨-, ht⟩
  exact replacesNumber_of_mem_nameOffers c m (TypeEntry.mem_of_first? ht)

theorem exists_getAt?_build_of_cast (h : Casts.collect tree names = .ok casts)
    {methods : List Method} {m : Method} (hm : m ∈ methods) {i : Int} {t : String}
    (ht : castTarget? c m casts i = some t) :
    ∃ t', (build c enums flags casts methods).params.getAt? m.key i = some t' := by
  rw [← Option.isSome_iff_exists, getAt?_build, List.findSome?_isSome_iff]
  refine ⟨m, hm, ?_⟩
  rw [first?_offers c m enums flags (Casts.nodup_keys_of_collect h m), ht]
  rfl

end Overrides

/-- The method has a parameter at the position, and it is declared as a number or an
enumeration. -/
def Arithmetic (c : Converter) (m : Method) (i : Int) : Prop :=
  ∃ (n : Nat) (p : Param), i = n ∧ m.params[n]? = some p ∧
    (c.carrier p.type false).isArithmetic = true

theorem Overrides.ReplacesNumber.arithmetic {c : Converter} {m : Method} {e : TypeEntry}
    (h : ReplacesNumber c m e) : Arithmetic c m e.index := by
  obtain ⟨p, rest, hparams, hnumber⟩ := h.number
  refine ⟨0, p, h.index, by rw [hparams]; rfl, ?_⟩
  revert hnumber
  cases c.carrier p.type false <;> simp [Carrier.isNumber, Carrier.isArithmetic]

theorem paramOverrides_of_build {c : Converter} {resolver : Option EnumResolver} {casts : Casts}
    {cls : Json} {methods : List Method} {w w' : Workspace} {data : Metadata}
    (h : (build c resolver casts cls methods).run.run w = (.ok data, w')) :
    data.paramOverrides = (Overrides.build (c.withEnums data.table) data.enums data.flags casts
      methods).params := by
  obtain ⟨own, w₁, -, h⟩ := Session.run_bind_eq_ok.1 h
  obtain ⟨⟨enums, unresolved⟩, w₂, -, h⟩ := Session.run_bind_eq_ok.1 h
  cases h
  rfl

theorem resolveAll_of_known (c : Converter) (ask : String → Session (Option EnumDef))
    {defs : List EnumDef} {types : List String}
    (h : ∀ type ∈ types, ((c.withDefs defs).resolve? type).isSome = true) :
    resolveAll c ask defs types = pure (defs, []) := by
  induction types with
  | nil => rfl
  | cons type rest ih =>
    rw [resolveAll, if_pos (h type List.mem_cons_self)]
    exact ih fun t ht => h t (List.mem_cons_of_mem _ ht)

theorem run_classEnums {namespaceName : String} {cls : Json} {own : Enumeration.ClassEnums}
    (h : Enumeration.ofClassNode namespaceName cls = .ok own) (w : Workspace) :
    ∃ w', (classEnums namespaceName cls).run.run w = (.ok own, w') := by
  rw [classEnums, h]
  exact ⟨_, rfl⟩

theorem exists_run_build (c : Converter) (resolver : Option EnumResolver) {casts : Casts}
    {cls : Json} {methods : List Method} {own : Enumeration.ClassEnums}
    (hown : Enumeration.ofClassNode c.namespaceName cls = .ok own)
    (hknown : ∀ type ∈ candidates c.pathTypes methods casts,
      ((c.withDefs own.enums).resolve? type).isSome = true) (w : Workspace) :
    ∃ data w', (build c resolver casts cls methods).run.run w = (.ok data, w') ∧
      data.enums = own.enums ∧ data.flags = own.flags ∧ data.table = c.enumTable own.enums := by
  obtain ⟨w', hclass⟩ := run_classEnums hown w
  have hresolve : (resolveAll c (resolveWith resolver) own.enums
      (candidates c.pathTypes methods casts)).run.run w' = (.ok (own.enums, []), w') := by
    rw [resolveAll_of_known c (resolveWith resolver) hknown]
    rfl
  exact ⟨_, w', Session.run_bind_eq_ok.2 ⟨own, w', hclass,
    Session.run_bind_eq_ok.2 ⟨(own.enums, []), w', hresolve, rfl⟩⟩, rfl, rfl, rfl⟩

/-- Overrides are for numbers and enumerations only, provided that casts are: the cast rule does
not ask for the declared type, and the other rules do.  The wrapper takes such parameters as C++
numbers. -/
theorem arithmetic_overrides_iff {tree : Json} {names : List String} {casts : Casts}
    (hcasts : Casts.collect tree names = .ok casts) {c : Converter}
    {resolver : Option EnumResolver} {cls : Json} {methods : List Method} {w w' : Workspace}
    {data : Metadata} (h : (build c resolver casts cls methods).run.run w = (.ok data, w')) :
    ((∀ key i t, data.paramOverrides.getAt? key i = some t →
        ∃ m ∈ methods, m.key = key ∧ Arithmetic (c.withEnums data.table) m i) ↔
      ∀ m ∈ methods, ∀ i type d, casts.typeFor? m i = some type →
        (c.withEnums data.table).resolve? type = some d →
          ∃ m' ∈ methods, m'.key = m.key ∧ Arithmetic (c.withEnums data.table) m' i) ∧
    ((c.withEnums data.table).Separate → ∀ m ∈ methods, ∀ p ∈ m.params,
      Spelling.normalize p.type = p.type →
        ((c.withEnums data.table).carrier p.type false).isArithmetic = true →
          String.ofList (Text.collapse ((c.withEnums data.table).cppParam p.type).toList) ∈
            Spelling.numericTypes) := by
  refine ⟨?_, fun hc m _ p _ hn hp => hc.cppParam_of_isArithmetic hn hp⟩
  rw [paramOverrides_of_build h]
  constructor
  · -- a cast to a known enumeration always makes an override
    intro hall m hm i type d htype hd
    have htarget := (Overrides.castTarget?_eq_some _).2 ⟨type, d, htype, hd, rfl⟩
    obtain ⟨t, ht⟩ :=
      Overrides.exists_getAt?_build_of_cast _ data.enums data.flags hcasts hm htarget
    exact hall m.key i t ht
  · -- and an override that no cast makes replaces a number
    intro hall key i t ht
    obtain ⟨m, hm, rfl, htarget | hnumber⟩ := Overrides.source_of_getAt?_build _ _ _ hcasts ht
    · obtain ⟨type, d, htype, hd, -⟩ := (Overrides.castTarget?_eq_some _).1 htarget
      exact hall m hm i type d htype hd
    · exact ⟨m, hm, rfl, hnumber.arithmetic⟩

theorem sortedTexts_eq_insertionSort (texts : List String) :
    sortedTexts texts = texts.eraseDups.insertionSort (· ≤ ·) :=
  List.mergeSort_eq_insertionSort (· ≤ ·) _

def insertedTable (c : Converter) (defs : List EnumDef) : Table String EnumDef :=
  defs.foldl (fun t d =>
    (d.typeNames.eraseDups.insertionSort (· ≤ ·)).foldl (fun t n =>
      (c.spellings n).foldl (fun t s => t.insert s d) t) t) []

theorem enumTable_eq_insertedTable (c : Converter) (defs : List EnumDef) :
    c.enumTable defs = insertedTable c defs := by
  simp only [Converter.enumTable, sortedTexts_eq_insertionSort, insertedTable]

example : (insertedTable Converter.executive [Converter.trimMode]).keys =
    ["TrimMode", "JSBSim::TrimMode"] := by decide +kernel

theorem ofClassNode_of_declared {namespaceName : String} {cls : Json}
    (h : (Enumeration.declared namespaceName cls).2.isNone = true) :
    Enumeration.ofClassNode namespaceName cls =
      .ok (Enumeration.declared namespaceName cls).1.result := by
  rw [Enumeration.ofClassNode]
  split
  · next hs => rw [hs]
  · next hs =>
    rw [hs] at h
    cases h

def trimClass : Json :=
  Casts.nodeOf "CXXRecordDecl" [("name", .str "FGFDMExec"), ("tagUsed", .str "class")]
    [Casts.nodeOf "AccessSpecDecl" [("access", .str "public")] [],
      Casts.nodeOf "EnumDecl" [("name", .str "TrimMode")]
        [Casts.nodeOf "EnumConstantDecl" [("name", .str "tLongitudinal")] [],
          Casts.nodeOf "EnumConstantDecl" [("name", .str "tFull")] []],
      Casts.nodeOf "CXXMethodDecl"
        [("name", .str "Trim"), Casts.typeField "void (const std::string &)"]
        [Casts.nodeOf "ParmVarDecl" [("name", .str "mode"), Casts.typeField "const std::string &"]
          []]]

def trimByName : Json :=
  Casts.definitionNode "Trim" [Casts.paramNode "0x2" "const std::string &"]
    [Casts.nodeOf "CXXStaticCastExpr" [Casts.typeField "TrimMode"]
      [Casts.nodeOf "CallExpr" [] [Casts.refNode "0x2"]]]

def trim : Method := ⟨"Trim", "void", [⟨"mode", "const std::string&", none⟩], .empty⟩

deriving instance DecidableEq for Doc, Method

theorem extract_trimClass : Method.extract Spelling.defaultPathTypes trimClass = .ok [trim] := by
  decide +kernel

def trimBody : Casts.Body := ⟨"Trim(const std::string&)", "Trim#1", [("0x2", 0)]⟩

theorem sightings_trimByName : Casts.sightings trimByName (Casts.scannedNames [trim]) =
    .ok [⟨trimBody, 0, "TrimMode"⟩] := by decide +kernel

def trimCasts : Casts := [⟨trimBody, 0, "TrimMode"⟩].foldl Casts.note .empty

theorem collect_trimByName :
    Casts.collect trimByName (Casts.scannedNames [trim]) = .ok trimCasts := by
  rw [Casts.collect_eq, sightings_trimByName]
  rfl

def trimEnums : Enumeration.ClassEnums := (Enumeration.declared "JSBSim" trimClass).1.result

theorem ofClassNode_trimClass : Enumeration.ofClassNode "JSBSim" trimClass = .ok trimEnums :=
  ofClassNode_of_declared (by decide +kernel)

theorem flags_trimEnums : trimEnums.flags = [] := by
  rw [← List.isEmpty_iff]
  decide +kernel

def trimConverter : Converter := Converter.executive.withDefs trimEnums.enums

theorem trimConverter_eq : trimConverter =
    Converter.executive.withEnums (insertedTable Converter.executive trimEnums.enums) := by
  rw [trimConverter, Converter.withDefs, enumTable_eq_insertedTable]

theorem exists_run_build_trimClass (methods : List Method) (casts : Casts)
    (h : candidates Spelling.defaultPathTypes methods casts = ["TrimMode"]) (w : Workspace) :
    ∃ data w', (build Converter.executive none casts trimClass methods).run.run w =
        (.ok data, w') ∧
      Converter.executive.withEnums data.table = trimConverter ∧
      data.paramOverrides =
        (Overrides.build trimConverter trimEnums.enums [] casts methods).params := by
  have hknown : ∀ type ∈ candidates Converter.executive.pathTypes methods casts,
      ((Converter.executive.withDefs trimEnums.enums).resolve? type).isSome = true := by
    intro type htype
    cases List.mem_singleton.1 (h ▸ htype)
    change (trimConverter.resolve? "TrimMode").isSome = true
    rw [trimConverter_eq]
    decide +kernel
  obtain ⟨data, w', hrun, henums, hflags, htable⟩ :=
    exists_run_build Converter.executive none ofClassNode_trimClass hknown w
  have hconverter : Converter.executive.withEnums data.table = trimConverter := by
    rw [htable, trimConverter, Converter.withDefs]
  refine ⟨data, w', hrun, hconverter, ?_⟩
  rw [paramOverrides_of_build hrun, hconverter, henums, hflags, flags_trimEnums]

def emptyWorkspace : Workspace := .ofFiles [] (.scripted []) []

/-- A name is overridden with the trim modes, and the wrapper takes it as a text. -/
theorem arithmetic_overrides_trim : ∃ data w',
    Method.extract Spelling.defaultPathTypes trimClass = .ok [trim] ∧
      Casts.collect trimByName (Casts.scannedNames [trim]) = .ok trimCasts ∧
      (build Converter.executive none trimCasts trimClass [trim]).run.run emptyWorkspace =
        (.ok data, w') ∧
      data.paramOverrides.getAt? trim.key 0 = some "FGFDMExecTrimMode" ∧
      ¬ Arithmetic (Converter.executive.withEnums data.table) trim 0 ∧
      (Converter.executive.withEnums data.table).cppParam "const std::string&" =
        "const std::string&" := by
  obtain ⟨data, w', hrun, hconverter, hoverrides⟩ :=
    exists_run_build_trimClass [trim] trimCasts (by decide +kernel) emptyWorkspace
  refine ⟨data, w', extract_trimClass, collect_trimByName, hrun, ?_, ?_, ?_⟩
  · rw [hoverrides, trimConverter_eq]
    decide +kernel
  · rw [hconverter]
    rintro ⟨n, p, hn, hp, harithmetic⟩
    cases Int.ofNat_eq_zero.1 hn.symm
    cases hp
    rw [trimConverter_eq] at harithmetic
    revert harithmetic
    decide +kernel
  · rw [hconverter, trimConverter_eq]
    decide +kernel

theorem arithmetic_overrides_setTrim : ∃ data w',
    Casts.collect Casts.trimOverloads ["SetTrim"] = .ok Casts.trimCasts ∧
      (build Converter.executive none Casts.trimCasts trimClass [Casts.setTrim "int"]).run.run
        emptyWorkspace = (.ok data, w') ∧
      data.paramOverrides.getAt? "SetTrim(int)" 0 = some "FGFDMExecTrimMode" ∧
      ∀ key i t, data.paramOverrides.getAt? key i = some t →
        ∃ m ∈ [Casts.setTrim "int"], m.key = key ∧
          Arithmetic (Converter.executive.withEnums data.table) m i := by
  obtain ⟨data, w', hrun, hconverter, hoverrides⟩ := exists_run_build_trimClass
    [Casts.setTrim "int"] Casts.trimCasts (by decide +kernel) emptyWorkspace
  refine ⟨data, w', Casts.collect_trimOverloads, hrun, ?_, ?_⟩
  · rw [hoverrides, trimConverter_eq]
    decide +kernel
  · refine (arithmetic_overrides_iff Casts.collect_trimOverloads hrun).1.2 ?_
    intro m hm i type d htype _
    cases List.mem_singleton.1 hm
    have hcasts : Casts.trimCasts.forMethod (Casts.setTrim "int") = some [(0, "TrimMode")] := by
      decide +kernel
    rw [Casts.typeFor?, hcasts, Option.bind_some, Table.get?_cons] at htype
    split at htype
    · next hi =>
      refine ⟨_, hm, rfl, 0, ⟨"value", "int", none⟩, eq_of_beq hi, rfl, ?_⟩
      rw [hconverter, trimConverter_eq]
      decide +kernel
    · cases htype

end WasmBindings.Metadata
