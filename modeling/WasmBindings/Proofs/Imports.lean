import WasmBindings.Proofs.ExportedNames
import WasmBindings.Proofs.MethodGroup
import WasmBindings.Proofs.OverrideTargets

namespace WasmBindings

theorem pairwise_sortedTexts (texts : List String) : (sortedTexts texts).Pairwise (· < ·) := by
  rw [Metadata.sortedTexts_eq_insertionSort]
  have hsorted := List.pairwise_insertionSort (· ≤ ·) texts.eraseDups
  have hdistinct := (List.perm_insertionSort (· ≤ ·) texts.eraseDups).nodup_iff.2
    (Distinct.nodup_eraseDups texts)
  exact (hsorted.and hdistinct).imp fun h => lt_of_le_of_ne h.1 h.2

namespace Metadata

def types (data : Metadata) (c : Converter) (m : Method) : List String :=
  m.params.mapIdx (data.paramType c m) ++ [data.returnType c m]

def Exports (data : Metadata) (name : String) : Prop :=
  ∃ d ∈ data.enums ++ data.flags, d.tsName = name

theorem types_ofMethod (data : Metadata) (c : Converter) (m : Method) :
    (Overload.ofMethod c data m).params.map (·.type) ++ [(Overload.ofMethod c data m).returnType] =
      data.types c m := by
  rw [types, Overload.ofMethod]
  congr 1
  apply List.ext_getElem
  · simp
  · intro i hi hi'
    simp

def plainTypes : List String := ["void", "boolean", "string", "string[]", "number"]

theorem builtin_of_mem_plainTypes {n type : String} (htype : type ∈ plainTypes)
    (hn : n ∈ MethodGroup.identifiers type) : n ∈ MethodGroup.builtinTypes := by
  have hall : ∀ type ∈ plainTypes, ∀ n ∈ MethodGroup.identifiers type,
      n ∈ MethodGroup.builtinTypes := by decide
  exact hall type htype n hn

end Metadata

theorem Converter.tsType_mem_plainTypes_or (c : Converter) (type : String) (isReturn : Bool) :
    c.tsType type isReturn ∈ Metadata.plainTypes ∨
      ∃ d, c.resolve? (Spelling.normalize type) = some d ∧ d.tsName = c.tsType type isReturn := by
  rw [tsType, carrier]
  cases hvalue : c.enumByValue? (Spelling.normalize type) with
  | some d => exact .inr ⟨d, resolve?_of_enumByValue? hvalue, rfl⟩
  | none =>
    left
    dsimp only
    repeat' split
    all_goals simp [Carrier.tsType, Metadata.plainTypes]

namespace Metadata

section Overrides

variable {c : Converter} {enums flags : List EnumDef} {casts : Casts} {m : Method}

theorem Overrides.type_of_mem_firstOffer {applies : Bool} {d : EnumDef} {e : TypeEntry}
    (h : e ∈ firstOffer c m applies d) : d.tsName = e.type := by
  rw [firstOffer_eq] at h
  split at h
  · cases List.mem_singleton.1 h
    rfl
  · cases h

theorem Overrides.exists_of_mem_offers {e : TypeEntry}
    (h : e ∈ offers (c.withDefs enums) m enums flags casts) :
    ∃ d ∈ enums ++ flags, d.tsName = e.type := by
  rcases List.mem_append.1 h with h | h
  · obtain ⟨cast, -, h⟩ := List.mem_flatMap.1 h
    obtain ⟨d, hd, rfl⟩ := (mem_castOffer _ m).1 h
    exact ⟨d, List.mem_append_left _ (Converter.covers_of_resolve? hd).1, rfl⟩
  · rcases List.mem_append.1 h with h | h
    · obtain ⟨d, hd, h⟩ := List.mem_flatMap.1 h
      exact ⟨d, List.mem_append_left _ hd, type_of_mem_firstOffer h⟩
    · obtain ⟨d, hd, h⟩ := List.mem_flatMap.1 h
      exact ⟨d, List.mem_append_right _ hd, type_of_mem_firstOffer h⟩

theorem Overrides.exists_of_getterOffer? {d : EnumDef} {t : String}
    (h : getterOffer? c m d = some t) : d.tsName = t := by
  rw [getterOffer?] at h
  split at h
  · exact Option.some.inj h
  · cases h

end Overrides

section Build

variable {c : Converter} {resolver : Option EnumResolver} {casts : Casts} {cls : Json}
  {methods : List Method} {w w' : Workspace} {data : Metadata}

theorem table_of_build (h : (build c resolver casts cls methods).run.run w = (.ok data, w')) :
    data.table = c.enumTable data.enums := by
  obtain ⟨own, w₁, -, h⟩ := Session.run_bind_eq_ok.1 h
  obtain ⟨⟨enums, unresolved⟩, w₂, -, h⟩ := Session.run_bind_eq_ok.1 h
  cases h
  rfl

theorem returnOverrides_of_build
    (h : (build c resolver casts cls methods).run.run w = (.ok data, w')) :
    data.returnOverrides = (Overrides.build (c.withEnums data.table) data.enums data.flags casts
      methods).returns := by
  obtain ⟨own, w₁, -, h⟩ := Session.run_bind_eq_ok.1 h
  obtain ⟨⟨enums, unresolved⟩, w₂, -, h⟩ := Session.run_bind_eq_ok.1 h
  cases h
  rfl

theorem exports_of_paramOverride
    (h : (build c resolver casts cls methods).run.run w = (.ok data, w')) {key t : String} {i : Int}
    (ht : data.paramOverrides.getAt? key i = some t) : data.Exports t := by
  rw [paramOverrides_of_build h, table_of_build h, Overrides.getAt?_build] at ht
  obtain ⟨m, -, ht⟩ := List.exists_of_findSome?_eq_some ht
  exact Overrides.exists_of_mem_offers (TypeEntry.mem_of_first? ht)

theorem exports_of_returnOverride
    (h : (build c resolver casts cls methods).run.run w = (.ok data, w')) {key t : String}
    (ht : data.returnOverrides.get? key = some t) : data.Exports t := by
  rw [returnOverrides_of_build h, Overrides.get?_returns_build] at ht
  obtain ⟨m, -, ht⟩ := List.exists_of_findSome?_eq_some ht
  split at ht
  · obtain ⟨d, hd, ht⟩ := List.exists_of_findSome?_eq_some ht
    exact ⟨d, List.mem_append_left _ hd, Overrides.exists_of_getterOffer? ht⟩
  · cases ht

theorem plain_or_exports_of_tsType
    (h : (build c resolver casts cls methods).run.run w = (.ok data, w')) (type : String)
    (isReturn : Bool) : (c.withEnums data.table).tsType type isReturn ∈ plainTypes ∨
      data.Exports ((c.withEnums data.table).tsType type isReturn) := by
  refine ((c.withEnums data.table).tsType_mem_plainTypes_or type isReturn).imp_right ?_
  rintro ⟨d, hd, hname⟩
  rw [table_of_build h] at hd
  exact ⟨d, List.mem_append_left _ (Converter.covers_of_resolve? hd).1, hname⟩

theorem plain_or_exports (h : (build c resolver casts cls methods).run.run w = (.ok data, w'))
    {m : Method} {type : String} (htype : type ∈ data.types (c.withEnums data.table) m) :
    type ∈ plainTypes ∨ data.Exports type := by
  rcases List.mem_append.1 htype with hparam | hreturn
  · obtain ⟨i, hi, rfl⟩ := List.mem_mapIdx.1 hparam
    rw [paramType]
    split
    · next t ht => exact .inr (exports_of_paramOverride h ht)
    · exact plain_or_exports_of_tsType h _ false
  · cases List.mem_singleton.1 hreturn
    rw [returnType]
    split
    · next t ht =>
      split
      · exact plain_or_exports_of_tsType h _ true
      · exact .inr (exports_of_returnOverride h ht)
    · exact plain_or_exports_of_tsType h _ true

end Build

end Metadata

namespace MethodGroup

theorem consHead_identifiersFrom {r : List Char} (h : r.all Text.isIdentChar = true) (c : Char) :
    Text.consHead c (identifiersFrom true r) = [c :: r] := by
  induction r generalizing c with
  | nil => rfl
  | cons c' r ih =>
    obtain ⟨hc', hr⟩ := Bool.and_eq_true_iff.1 h
    rw [identifiersFrom, if_pos rfl, if_pos hc', ih hr]
    rfl

theorem identifiers_of_isIdentRun {s : String} (h : Piece.isIdentRun s.toList = true) :
    identifiers s = [s] := by
  rw [identifiers]
  cases hs : s.toList with
  | nil => simp [hs, Piece.isIdentRun] at h
  | cons c r =>
    rw [hs] at h
    obtain ⟨hc, hr⟩ := Bool.and_eq_true_iff.1 h
    rw [identifiersFrom, if_neg Bool.false_ne_true, if_pos hc, consHead_identifiersFrom hr,
      List.map_singleton, ← hs, String.ofList_toList]

theorem mem_imports {groups : List MethodGroup} {interfaceName n : String} :
    n ∈ imports groups interfaceName ↔ n = interfaceName ∨
      n ∉ builtinTypes ∧ ∃ type ∈ typeNames groups, n ∈ identifiers type := by
  simp [imports, and_comm]

theorem mem_typeNames_of_build {c : Converter} {data : Metadata} {ignored : List String}
    {methods : List Method} {groups : List MethodGroup}
    (h : build c data ignored methods = .ok groups) {type : String} :
    type ∈ typeNames groups ↔ ∃ m ∈ methods, m.name ∉ ignored ∧ type ∈ data.types c m := by
  have hgroups : groups = grouping c data (kept ignored methods) := by
    by_cases hc : Colliding (kept ignored methods)
    · obtain ⟨first, second, herror⟩ := build_error c data hc
      rw [herror] at h
      cases h
    · rw [build_ok c data hc] at h
      cases h
      rfl
  have hkept : ∀ m, m ∈ kept ignored methods ↔ m ∈ methods ∧ m.name ∉ ignored := by
    simp [kept]
  rw [hgroups, typeNames]
  constructor
  · intro htype
    obtain ⟨g, hg, htype⟩ := List.mem_flatMap.1 htype
    obtain ⟨o, ho, htype⟩ := List.mem_flatMap.1 htype
    obtain ⟨name, -, rfl⟩ := List.mem_map.1 hg
    obtain ⟨m, hm, rfl⟩ := List.mem_map.1 ho
    obtain ⟨hm, hname⟩ := (hkept m).1 (List.mem_of_mem_filter hm)
    rw [Metadata.types_ofMethod] at htype
    exact ⟨m, hm, hname, htype⟩
  · rintro ⟨m, hm, hname, htype⟩
    have hm' := (hkept m).2 ⟨hm, hname⟩
    rw [← Metadata.types_ofMethod] at htype
    refine List.mem_flatMap.2 ⟨ofName c data (kept ignored methods) m.name,
      List.mem_map_of_mem (mem_names.2 ⟨m, hm', rfl⟩), List.mem_flatMap.2 ⟨_, ?_, htype⟩⟩
    exact List.mem_map_of_mem (List.mem_filter.2 ⟨hm', by simp⟩)

end MethodGroup

namespace Emit.RawInterface

theorem exists_render_of_mem (c : Converter) {data : Metadata} {d : EnumDef}
    (hd : d ∈ data.enums ++ data.flags) (interfaceName : String) (methods : List Method) :
    ∃ before after, render c data interfaceName methods =
      before ++ "\n" ++ heading d ++ "\n" ++ after := by
  have hmem : heading d ∈ (lines c data interfaceName methods).filter isHeading := by
    rw [filter_lines]
    exact List.mem_map_of_mem hd
  obtain ⟨hmem, hheading⟩ := List.mem_filter.1 hmem
  obtain ⟨start, rest, hlines⟩ := List.append_of_mem hmem
  -- neither the first line nor the last one is a heading
  have hstart : start ≠ [] := by
    rintro rfl
    have hfirst : heading d = "// Generated by scripts/gen_bindings.py." :=
      (List.cons.inj hlines).1.symm
    rw [hfirst] at hheading
    exact absurd hheading (by decide)
  have hrest : rest ≠ [] := by
    rintro rfl
    have hlast : heading d = "" := by
      have h := congrArg List.getLast? hlines
      rw [lines, List.getLast?_append, List.getLast?_concat] at h
      exact (Option.some.inj h).symm
    rw [hlast] at hheading
    exact absurd hheading (by decide)
  refine ⟨joinLines start, joinLines rest, ?_⟩
  rw [render, joinLines, hlines, String.intercalate_append_of_ne_nil hstart (by simp),
    String.intercalate_cons_of_ne_nil hrest]
  simp only [joinLines, String.append_assoc]

end Emit.RawInterface

namespace Metadata

open Emit

/-- The imports of an API class are sorted, and besides the interface they are the exported names
that the types of its methods mention; the raw interface declares each of them. -/
theorem imports_declared {c : Converter} {resolver : Option EnumResolver} {casts : Casts}
    {cls : Json} {methods : List Method} {w w' : Workspace} {data : Metadata}
    (h : (build c resolver casts cls methods).run.run w = (.ok data, w'))
    (hnames : ∀ d ∈ data.enums ++ data.flags, Piece.isIdentRun d.tsName.toList = true)
    {ignored : List String} {groups : List MethodGroup}
    (hgroups : MethodGroup.build (c.withEnums data.table) data ignored methods = .ok groups)
    (interfaceName : String) :
    (MethodGroup.imports groups interfaceName).Pairwise (· < ·) ∧
      (∀ n, n ∈ MethodGroup.imports groups interfaceName ↔ n = interfaceName ∨
        n ∉ MethodGroup.builtinTypes ∧ data.Exports n ∧
          ∃ m ∈ methods, m.name ∉ ignored ∧ n ∈ data.types (c.withEnums data.table) m) ∧
      ∀ n ∈ MethodGroup.imports groups interfaceName, n ≠ interfaceName →
        ∃ before after,
          RawInterface.render (c.withEnums data.table) data interfaceName methods =
            before ++ "\nexport enum " ++ n ++ " \x7b\n" ++ after := by
  have hmem : ∀ n, n ∈ MethodGroup.imports groups interfaceName ↔ n = interfaceName ∨
      n ∉ MethodGroup.builtinTypes ∧ data.Exports n ∧
        ∃ m ∈ methods, m.name ∉ ignored ∧ n ∈ data.types (c.withEnums data.table) m := by
    intro n
    rw [MethodGroup.mem_imports]
    refine or_congr_right (and_congr_right fun hbuiltin => ?_)
    simp only [MethodGroup.mem_typeNames_of_build hgroups]
    constructor
    · rintro ⟨type, ⟨m, hm, hkept, htype⟩, hn⟩
      rcases plain_or_exports h htype with hplain | hexports
      · exact absurd (builtin_of_mem_plainTypes hplain hn) hbuiltin
      · obtain ⟨d, hd, rfl⟩ := id hexports
        rw [MethodGroup.identifiers_of_isIdentRun (hnames d hd), List.mem_singleton] at hn
        subst hn
        exact ⟨hexports, m, hm, hkept, htype⟩
    · rintro ⟨⟨d, hd, rfl⟩, m, hm, hkept, htype⟩
      refine ⟨d.tsName, ⟨m, hm, hkept, htype⟩, ?_⟩
      rw [MethodGroup.identifiers_of_isIdentRun (hnames d hd)]
      exact List.mem_singleton_self _
  refine ⟨pairwise_sortedTexts _, hmem, ?_⟩
  intro n hn hne
  obtain ⟨-, ⟨d, hd, rfl⟩, -⟩ := ((hmem n).1 hn).resolve_left hne
  obtain ⟨before, after, htext⟩ :=
    RawInterface.exists_render_of_mem (c.withEnums data.table) hd interfaceName methods
  refine ⟨before, after, ?_⟩
  rw [htext, RawInterface.heading, show "\nexport enum " = "\n" ++ "export enum " from rfl,
    show " \x7b\n" = " \x7b" ++ "\n" from rfl]
  simp only [String.append_assoc]

theorem imports_declared_trimLoop : ∃ data w' groups,
    (build trimOwner none .empty (loopClass "eMode") [trimLoop]).run.run emptyWorkspace =
        (.ok data, w') ∧
      (∀ d ∈ data.enums ++ data.flags, Piece.isIdentRun d.tsName.toList = true) ∧
      MethodGroup.build (trimOwner.withEnums data.table) data [] [trimLoop] = .ok groups ∧
      "TrimLoopMode" ∈ MethodGroup.imports groups "RawTrim" ∧
      "TrimMode" ∉ MethodGroup.imports groups "RawTrim" ∧
      ∃ before after,
        RawInterface.render (trimOwner.withEnums data.table) data "RawTrim" [trimLoop] =
          before ++ "\nexport enum " ++ "TrimLoopMode" ++ " \x7b\n" ++ after := by
  obtain ⟨data, w', hrun, henums, hflags⟩ :=
    exists_run_build_loopClass "eMode" (by decide +kernel) emptyWorkspace
  have hnames : ∀ d ∈ data.enums ++ data.flags, Piece.isIdentRun d.tsName.toList = true := by
    rw [henums, hflags]
    decide +kernel
  have hexported : (data.enums ++ data.flags).map (·.tsName) = ["TrimMode", "TrimLoopMode"] := by
    rw [henums, hflags]
    decide +kernel
  have htypes : data.types (trimOwner.withEnums data.table) trimLoop =
      ["TrimLoopMode", "void"] := by
    change [data.paramType _ trimLoop 0 ⟨"mode", "int", none⟩, data.returnType _ trimLoop] = _
    rw [paramType, returnType, paramOverrides_of_build hrun, returnOverrides_of_build hrun,
      table_of_build hrun, henums, hflags, enumTable_eq_insertedTable]
    decide +kernel
  have halone : ¬ MethodGroup.Colliding (MethodGroup.kept [] [trimLoop]) := by
    rintro ⟨m, hm, m', hm', hne, -⟩
    cases List.mem_singleton.1 hm
    cases List.mem_singleton.1 hm'
    exact hne rfl
  have hgroups := MethodGroup.build_ok (trimOwner.withEnums data.table) data halone
  obtain ⟨-, hmem, htext⟩ := imports_declared hrun hnames hgroups "RawTrim"
  have himport := (hmem "TrimLoopMode").2 <| .inr ⟨by decide, List.mem_map.1 (by simp [hexported]),
    trimLoop, by simp, by simp, by simp [htypes]⟩
  refine ⟨data, w', _, hrun, hnames, hgroups, himport, ?_, htext _ himport (by decide)⟩
  rw [hmem]
  rintro (hname | ⟨-, -, m, hm, -, htype⟩)
  · exact absurd hname (by decide)
  · cases List.mem_singleton.1 hm
    rw [htypes] at htype
    exact absurd htype (by decide)

end Metadata

end WasmBindings
