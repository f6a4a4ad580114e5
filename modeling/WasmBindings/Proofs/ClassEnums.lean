import WasmBindings.Enumeration.ClassEnums
import WasmBindings.Proofs.EnumTable
import WasmBindings.Proofs.Outcome
import WasmBindings.Proofs.TypeTable

namespace WasmBindings

namespace EnumDef

def Apart (defs : List EnumDef) : Prop := defs.Pairwise fun d e => d.clashes e = false

variable {defs : List EnumDef}

theorem clashes_eq_false {d e : EnumDef} :
    d.clashes e = false ↔ d.tsName ≠ e.tsName ∧ d.qualifiedName ≠ e.qualifiedName := by
  simp [clashes]

theorem add_cases (defs : List EnumDef) (d : EnumDef) :
    ((∃ e ∈ defs, e.clashes d = true) ∧ add defs d = defs) ∨
      (∀ e ∈ defs, e.clashes d = false) ∧ add defs d = defs ++ [d] := by
  rw [add]
  split
  · next h => exact .inl ⟨List.any_eq_true.1 h, rfl⟩
  · next h => exact .inr ⟨by simpa using h, rfl⟩

theorem isPrefix_add (defs : List EnumDef) (d : EnumDef) : defs <+: add defs d := by
  obtain ⟨-, h⟩ | ⟨-, h⟩ := add_cases defs d
  · simp [h]
  · simp [h]

theorem mem_add {d e : EnumDef} (h : e ∈ add defs d) : e ∈ defs ∨ e = d := by
  obtain ⟨-, hadd⟩ | ⟨-, hadd⟩ := add_cases defs d
  · exact .inl (hadd ▸ h)
  · simpa [hadd] using h

theorem Apart.add (h : Apart defs) (d : EnumDef) : Apart (EnumDef.add defs d) := by
  obtain ⟨-, hadd⟩ | ⟨hd, hadd⟩ := add_cases defs d
  · rw [hadd]
    exact h
  · rw [hadd, Apart, List.pairwise_append]
    exact ⟨h, List.pairwise_singleton _ d, by simpa using hd⟩

theorem Apart.nodup_tsName (h : Apart defs) : (defs.map (·.tsName)).Nodup := by
  apply List.pairwise_map.2
  exact h.imp fun hde => (clashes_eq_false.1 hde).1

theorem Apart.nodup_qualifiedName (h : Apart defs) : (defs.map (·.qualifiedName)).Nodup := by
  apply List.pairwise_map.2
  exact h.imp fun hde => (clashes_eq_false.1 hde).2

end EnumDef

namespace ClassBody

theorem mem_of_mem_entriesFrom {start isPublic : Bool} {vs : List Json} {v : Json}
    (h : .member isPublic v ∈ entriesFrom start vs) : v ∈ vs := by
  induction vs generalizing start with
  | nil => cases h
  | cons c vs ih =>
    rw [entriesFrom] at h
    split at h
    · rcases List.mem_cons.1 h with h | h
      · cases h
      · exact List.mem_cons_of_mem c (ih h)
    · rcases List.mem_cons.1 h with h | h
      · cases h
        exact List.mem_cons_self
      · exact List.mem_cons_of_mem c (ih h)

end ClassBody

namespace Enumeration

open Spelling

def declaredName? (v : Json) : Option String :=
  match v.field? "name" with
  | some (.str name) => if name = "" then none else some name
  | _ => none

def enumNames (vs : List Json) : List String :=
  (vs.filter (Tree.hasKind "EnumDecl")).filterMap declaredName?

def DeclaredBy (namespaceName : String) (className : Json) (vs : List Json) (d : EnumDef) : Prop :=
  ∃ name ∈ enumNames vs, ∃ owner items, className = .str owner ∧
    d = ofClass namespaceName owner name items

variable {namespaceName : String} {className : Json} {s s' : Declared} {vs : List Json}

inductive Declares (namespaceName : String) (className : Json) (vs : List Json)
    (s s' : Declared) : Prop
  | nothing (henums : s'.enums = s.enums) (hflags : s'.flags = s.flags)
  | enum {d : EnumDef} (hd : DeclaredBy namespaceName className vs d)
      (henums : s'.enums = EnumDef.add s.enums d) (hflags : s'.flags = s.flags)
  | flag {method : String} {items : List Enumerator} (henums : s'.enums = s.enums)
      (hflags : s'.flags = s.flags.insert method items)

theorem enums_addEnum (s : Declared) (d : EnumDef) :
    (s.addEnum d).enums = EnumDef.add s.enums d := by
  rw [Declared.addEnum, EnumDef.add]
  split <;> rfl

theorem flags_addEnum (s : Declared) (d : EnumDef) : (s.addEnum d).flags = s.flags := by
  rw [Declared.addEnum]
  split <;> rfl

theorem needText_eq_ok {v : Json} {text : String} (h : Tree.needText v = .ok text) :
    v = .str text := by
  cases v <;> cases h
  rfl

theorem declares_of_declareEnum {v : Json} (hv : v ∈ vs)
    (hkind : Tree.hasKind "EnumDecl" v = true)
    (h : declareEnum namespaceName className s v = .ok s') :
    Declares namespaceName className vs s s' := by
  rw [declareEnum] at h
  split at h
  · cases h
    exact .nothing rfl rfl
  · next name hname =>
    split at h
    · cases h
      exact .nothing rfl rfl
    · next htruthy =>
      obtain ⟨items, -, h⟩ := Outcome.bind_eq_ok.1 h
      split at h
      · cases h
        exact .nothing rfl rfl
      · obtain ⟨text, htext, h⟩ := Outcome.bind_eq_ok.1 h
        obtain ⟨owner, howner, h⟩ := Outcome.bind_eq_ok.1 h
        cases h
        cases needText_eq_ok htext
        have hdeclared : declaredName? v = some text := by
          simpa [declaredName?, hname, Json.isTruthy] using htruthy
        have hmem : text ∈ enumNames vs :=
          List.mem_filterMap.2 ⟨v, List.mem_filter.2 ⟨hv, hkind⟩, hdeclared⟩
        exact .enum ⟨text, hmem, owner, items, needText_eq_ok howner, rfl⟩ (enums_addEnum _ _)
          (flags_addEnum _ _)

theorem declares_of_declareFlag {v : Json} (h : declareFlag s v = .ok s') :
    Declares namespaceName className vs s s' := by
  obtain ⟨comment, -, h⟩ := Outcome.bind_eq_ok.1 h
  dsimp only at h
  split at h
  · cases h
    exact .nothing rfl rfl
  · obtain ⟨value, -, h⟩ := Outcome.bind_eq_ok.1 h
    split at h
    · cases h
      split
      · exact .flag rfl rfl
      · exact .nothing rfl rfl
    · cases h
      exact .nothing rfl rfl

theorem declares_of_declare {e : ClassBody.Entry}
    (he : ∀ isPublic v, e = .member isPublic v → v ∈ vs)
    (h : declare namespaceName className s e = .ok s') :
    Declares namespaceName className vs s s' := by
  cases e with
  | specifier isPublic =>
    cases h
    cases isPublic <;> exact .nothing rfl rfl
  | member isPublic v =>
    obtain ⟨-, -, h⟩ := Outcome.bind_eq_ok.1 h
    split at h
    · cases h
      exact .nothing rfl rfl
    · split at h
      · next hkind => exact declares_of_declareEnum (he isPublic v rfl) hkind h
      · split at h
        · obtain ⟨constant, -, h⟩ := Outcome.bind_eq_ok.1 h
          split at h
          · exact declares_of_declareFlag h
          · cases h
            exact .nothing rfl rfl
        · cases h
          exact .nothing rfl rfl

/-- What holds of the entries taken in so far. -/
structure Sound (namespaceName : String) (className : Json) (vs : List Json) (s : Declared) :
    Prop where
  apart : EnumDef.Apart s.enums
  declared : ∀ d ∈ s.enums, DeclaredBy namespaceName className vs d
  flags : s.flags.keys.Nodup

theorem sound_empty : Sound namespaceName className vs .empty where
  apart := .nil
  declared := by
    intro d hd
    cases hd
  flags := .nil

theorem Sound.step (h : Sound namespaceName className vs s)
    (hstep : Declares namespaceName className vs s s') : Sound namespaceName className vs s' := by
  cases hstep with
  | nothing henums hflags => exact ⟨henums ▸ h.apart, henums ▸ h.declared, hflags ▸ h.flags⟩
  | enum hd henums hflags =>
    refine ⟨henums ▸ h.apart.add _, ?_, hflags ▸ h.flags⟩
    intro e he
    rw [henums] at he
    rcases EnumDef.mem_add he with he | rfl
    · exact h.declared e he
    · exact hd
  | flag henums hflags =>
    exact ⟨henums ▸ h.apart, henums ▸ h.declared, hflags ▸ Table.nodup_keys_insert h.flags _ _⟩

theorem Sound.declareAll {entries : List ClassBody.Entry}
    (hentries : ∀ isPublic v, .member isPublic v ∈ entries → v ∈ vs)
    (h : Sound namespaceName className vs s) :
    Sound namespaceName className vs
      (Enumeration.declareAll namespaceName className s entries).1 := by
  induction entries generalizing s with
  | nil => exact h
  | cons e entries ih =>
    rw [Enumeration.declareAll]
    split
    · next s' hstep =>
      apply ih fun isPublic v hv => hentries isPublic v (List.mem_cons_of_mem e hv)
      apply h.step
      apply declares_of_declare _ hstep
      rintro isPublic v rfl
      exact hentries isPublic v List.mem_cons_self
    · exact h

theorem sound_declared (namespaceName : String) (cls : Json) :
    Sound namespaceName (ClassBody.className cls) (Tree.children cls)
      (declared namespaceName cls).1 := by
  rw [declared]
  split
  · exact sound_empty.declareAll fun isPublic v => ClassBody.mem_of_mem_entriesFrom
  · exact sound_empty

theorem exists_declared {cls : Json} {own : ClassEnums}
    (h : ofClassNode namespaceName cls = .ok own) :
    ∃ s, Sound namespaceName (ClassBody.className cls) (Tree.children cls) s ∧ own = s.result := by
  have hsound := sound_declared namespaceName cls
  rw [ofClassNode] at h
  split at h
  · next s hs =>
    rw [hs] at hsound
    cases h
    exact ⟨s, hsound, rfl⟩
  · cases h

theorem ending_enumKey_scope (s t : String) :
    Scope.ending (enumKey (s ++ "::" ++ t)).toList = Scope.ending (enumKey t).toList := by
  rw [toList_enumKey, toList_enumKey, String.toList_append, String.toList_append,
    List.append_assoc]
  exact (congrArg Scope.ending (keyChars_scope s.toList t.toList)).trans (Scope.ending_scope _ _)

theorem ending_enumKey_name {name : String} (h : IsName name.toList) :
    Scope.ending (enumKey name).toList = name.toList := by
  rw [toList_enumKey, h.keyChars, Scope.ending_of_not_mem h.not_colon]

theorem decorates_enum (name : String) : Decorates name.toList ("enum " ++ name).toList :=
  ⟨enumWord ++ [' '], [], .word List.mem_cons_self Text.isBlank_space .nil, .nil, by
    rw [String.toList_append, List.append_nil]
    rfl⟩

theorem ending_enumKey_tagged {name : String} (h : IsName name.toList) :
    Scope.ending (enumKey ("enum " ++ name)).toList = name.toList := by
  rw [toList_enumKey, (decorates_enum name).keyChars (.name h),
    Scope.ending_of_not_mem h.not_colon]

theorem mem_typeNames_ofClass {namespaceName owner name : String} {items : List Enumerator}
    {n : String} (hn : n ∈ (ofClass namespaceName owner name items).typeNames) :
    n = name ∨ n = "enum " ++ name ∨
      ∃ scope ∈ [owner, namespaceName ++ "::" ++ owner, "enum " ++ owner],
        n = scope ++ "::" ++ name := by
  simp only [ofClass, List.mem_cons, List.not_mem_nil, or_false] at hn
  rcases hn with rfl | rfl | rfl | rfl | rfl
  · exact .inl rfl
  · exact .inr (.inr ⟨owner, by simp, rfl⟩)
  · right
    right
    split
    · exact ⟨owner, by simp, rfl⟩
    · exact ⟨namespaceName ++ "::" ++ owner, by simp, by simp only [String.append_assoc]⟩
  · exact .inr (.inl rfl)
  · exact .inr (.inr ⟨"enum " ++ owner, by simp, by simp only [String.append_assoc]⟩)

theorem wellNamed_ofClass (namespaceName owner : String) {name : String}
    (items : List Enumerator) (h : IsName name.toList) :
    (ofClass namespaceName owner name items).WellNamed where
  isName := h
  own := List.mem_cons_self
  ending := by
    intro n hn
    rcases mem_typeNames_ofClass hn with rfl | rfl | ⟨scope, -, rfl⟩
    · exact ending_enumKey_name h
    · exact ending_enumKey_tagged h
    · exact (ending_enumKey_scope scope name).trans (ending_enumKey_name h)

theorem clashes_of_simpleName {d e : EnumDef} (hd : DeclaredBy namespaceName className vs d)
    (he : DeclaredBy namespaceName className vs e) (h : d.simpleName = e.simpleName) :
    d.clashes e = true := by
  obtain ⟨name, -, owner, items, howner, rfl⟩ := hd
  obtain ⟨name', -, owner', items', howner', rfl⟩ := he
  cases howner.symm.trans howner'
  cases (show name = name' from h)
  simp [EnumDef.clashes, ofClass]

theorem Sound.wellNamedDefs (h : Sound namespaceName className vs s)
    (hvs : ∀ name ∈ enumNames vs, IsName name.toList) : WellNamedDefs s.enums where
  wellNamed := by
    intro d hd
    obtain ⟨name, hname, owner, items, -, rfl⟩ := h.declared d hd
    exact wellNamed_ofClass namespaceName owner items (hvs name hname)
  nodup := by
    apply List.pairwise_map.2
    apply h.apart.imp_of_mem
    intro d e hd he hclash hname
    rw [clashes_of_simpleName (h.declared d hd) (h.declared e he) hname] at hclash
    cases hclash

end Enumeration

end WasmBindings
