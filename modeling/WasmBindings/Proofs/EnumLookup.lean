import WasmBindings.Proofs.Cpp.Adornment
import WasmBindings.Proofs.Resolution

/-!
Look-up by the last component.  A type is looked up under its last component too, and a definition
is entered under its simple name, so where the names of the definitions end in their simple names
the scope of a type does not count.
-/

namespace WasmBindings

namespace Scope

open Text Spelling

/-- Colons stand in pairs only, between the components. -/
def Paired (s : List Char) : Prop := ∀ p ∈ components s, ':' ∉ p

def OfWords (s : List Char) : Prop := ∀ p ∈ components s, ∀ c ∈ p, isWord c = true

instance (s : List Char) : Decidable (Paired s) :=
  inferInstanceAs (Decidable (∀ p ∈ components s, ':' ∉ p))

instance (s : List Char) : Decidable (OfWords s) :=
  decidable_of_iff ((components s).all (·.all isWord) = true) (by simp [OfWords])

variable {s : List Char}

theorem OfWords.paired (h : OfWords s) : Paired s := by
  intro p hp hcolon
  exact absurd (h p hp ':' hcolon) (by decide)

theorem paired_of_not_mem (h : ':' ∉ s) : Paired s := by
  intro p hp
  rw [components_of_not_mem h, List.mem_singleton] at hp
  exact hp ▸ h

theorem mem_components_or_colon {c : Char} (h : c ∈ s) :
    c = ':' ∨ ∃ p ∈ components s, c ∈ p := by
  fun_induction components s with
  | case1 r ih =>
    rcases List.mem_cons.1 h with rfl | h
    · exact .inl rfl
    · rcases List.mem_cons.1 h with rfl | h
      · exact .inl rfl
      · obtain rfl | ⟨p, hp, hc⟩ := ih h
        · exact .inl rfl
        · exact .inr ⟨p, List.mem_cons_of_mem _ hp, hc⟩
  | case2 d r _ ih =>
    obtain ⟨q, qs, hq⟩ := List.exists_cons_of_ne_nil (components_ne_nil r)
    rw [hq, consHead]
    rcases List.mem_cons.1 h with rfl | h
    · exact .inr ⟨c :: q, List.mem_cons_self, List.mem_cons_self⟩
    · obtain rfl | ⟨p, hp, hc⟩ := ih h
      · exact .inl rfl
      · rw [hq] at hp
        rcases List.mem_cons.1 hp with rfl | hp
        · exact .inr ⟨d :: p, List.mem_cons_self, List.mem_cons_of_mem d hc⟩
        · exact .inr ⟨p, List.mem_cons_of_mem _ hp, hc⟩
  | case3 => cases h

theorem OfWords.not_blank (h : OfWords s) : ∀ c ∈ s, isBlank c = false := by
  intro c hc
  obtain rfl | ⟨p, hp, hmem⟩ := mem_components_or_colon hc
  · decide
  · exact isBlank_of_isWord (h p hp c hmem)

theorem Paired.induct {motive : List Char → Prop} (hname : ∀ s, ':' ∉ s → motive s)
    (hcons : ∀ p t, ':' ∉ p → Paired t → motive t → motive (p ++ ':' :: ':' :: t))
    (h : Paired s) : motive s := by
  generalize hps : components s = ps at *
  induction ps generalizing s with
  | nil => exact absurd hps (components_ne_nil s)
  | cons p ps ih =>
    have hp : ':' ∉ p := h p (hps ▸ List.mem_cons_self)
    have hs := intercalate_components s
    rw [hps] at hs
    cases ps with
    | nil =>
      rw [← hs]
      exact hname _ (by simpa using hp)
    | cons q ps =>
      rw [List.intercalate_cons_cons, List.append_assoc] at hs
      have ht : components ([':', ':'].intercalate (q :: ps)) = q :: ps := by
        have hcut := components_append hp ([':', ':'].intercalate (q :: ps))
        rw [show p ++ ':' :: ':' :: [':', ':'].intercalate (q :: ps) = s from hs, hps] at hcut
        exact (List.cons.inj hcut).2.symm
      have hpaired : Paired ([':', ':'].intercalate (q :: ps)) := by
        intro r hr
        rw [ht] at hr
        exact h r (hps ▸ List.mem_cons_of_mem p hr)
      rw [← hs]
      exact hcons p _ hp hpaired (ih hpaired ht)

theorem Paired.components_append (h : Paired s) (t : List Char) :
    components (s ++ ':' :: ':' :: t) = components s ++ components t := by
  refine h.induct (motive := fun s => components (s ++ ':' :: ':' :: t) =
    components s ++ components t) ?_ ?_
  · intro s hs
    rw [Scope.components_append hs, components_of_not_mem hs, List.singleton_append]
  · intro p u hp _ ih
    rw [List.append_assoc, List.cons_append, List.cons_append, Scope.components_append hp, ih,
      Scope.components_append hp, List.cons_append]

theorem Paired.append_iff (h : Paired s) {t : List Char} :
    Paired (s ++ ':' :: ':' :: t) ↔ Paired t := by
  rw [Paired, h.components_append]
  constructor
  · intro hall p hp
    exact hall p (List.mem_append_right _ hp)
  · intro hall p hp
    exact (List.mem_append.1 hp).elim (h p) (hall p)

theorem Paired.prepend (h : Paired s) {p : List Char} (hp : ':' ∉ p) : Paired (p ++ s) := by
  induction p with
  | nil => exact h
  | cons c p ih =>
    have hc : c ≠ ':' := fun heq => hp (heq ▸ List.mem_cons_self)
    have hrest := ih fun hmem => hp (List.mem_cons_of_mem c hmem)
    obtain ⟨q, qs, hq⟩ := List.exists_cons_of_ne_nil (components_ne_nil (p ++ s))
    have hcut : components (c :: (p ++ s)) = (c :: q) :: qs := by
      rw [components.eq_def]
      split <;> simp_all [consHead]
    intro r hr
    rw [List.cons_append, hcut] at hr
    rw [Paired, hq, List.forall_mem_cons] at hrest
    rcases List.mem_cons.1 hr with rfl | hr
    · simp [Ne.symm hc, hrest.1]
    · exact hrest.2 r hr

theorem toList_scope (s t : String) :
    (s ++ "::" ++ t).toList = s.toList ++ ':' :: ':' :: t.toList := by
  simp

theorem simpleName_scope {s : String} (h : Paired s.toList) (t : String) :
    simpleName (s ++ "::" ++ t) = simpleName t := by
  have hlast : ∀ ps : List (List Char), ∀ qs ≠ [], (ps ++ qs).getLastD [] = qs.getLastD [] := by
    intro ps qs hqs
    rw [List.getLastD_eq_getLast?, List.getLast?_append_of_ne_nil ps hqs,
      List.getLastD_eq_getLast?]
  rw [simpleName, toList_scope, h.components_append, hlast _ _ (components_ne_nil _), simpleName]

theorem simpleName_of_not_mem {name : String} (h : ':' ∉ name.toList) : simpleName name = name := by
  rw [simpleName, components_of_not_mem h]
  simp

theorem exists_scope (name : String) :
    name = simpleName name ∨ ∃ scope, name = scope ++ "::" ++ simpleName name := by
  obtain ⟨q, hq, hend⟩ := exists_intercalate (components_ne_nil name.toList)
  rw [intercalate_components] at hq
  rcases hend with rfl | ⟨q', rfl⟩
  · left
    rw [← String.toList_inj, hq, simpleName, String.toList_ofList]
    rfl
  · right
    refine ⟨String.ofList q', ?_⟩
    rw [← String.toList_inj, toList_scope, String.toList_ofList, simpleName, String.toList_ofList]
    simpa using hq

theorem not_scoped_of_mem_components {s : List Char} :
    ∀ p ∈ components s, occursIn [':', ':'] p = false := by
  fun_induction components s with
  | case1 r ih =>
    intro p hp
    rcases List.mem_cons.1 hp with rfl | hp
    · rfl
    · exact ih p hp
  | case2 c r hcolons ih =>
    intro p hp
    obtain ⟨q, qs, hq⟩ := List.exists_cons_of_ne_nil (components_ne_nil r)
    rw [hq, consHead] at hp
    rcases List.mem_cons.1 hp with rfl | hp
    · rw [occursIn, ih q (hq ▸ List.mem_cons_self), Bool.or_false, Bool.eq_false_iff]
      intro hstart
      -- a colon at the head of the next component would be the second of a pair
      obtain ⟨rfl, q', rfl⟩ : c = ':' ∧ ∃ q', q = ':' :: q' := by
        obtain ⟨t, ht⟩ := List.isPrefixOf_iff_prefix.1 hstart
        exact ⟨(List.cons.inj ht).1.symm, t, (List.cons.inj ht).2.symm⟩
      obtain ⟨r', rfl⟩ : ∃ r', r = ':' :: r' := by
        fun_cases components r
        · simp [components] at hq
        · next d r _ =>
          obtain ⟨u, us, hu⟩ := List.exists_cons_of_ne_nil (components_ne_nil r)
          simp_all [components, consHead]
        · simp [components] at hq
      exact hcolons r' rfl rfl
    · exact ih p (hq ▸ List.mem_cons_of_mem q hp)
  | case3 =>
    intro p hp
    cases List.mem_singleton.1 hp
    rfl

@[simp] theorem simpleName_simpleName (name : String) :
    simpleName (simpleName name) = simpleName name := by
  apply simpleName_of_not_scoped
  rw [isScoped, simpleName, String.toList_ofList]
  apply not_scoped_of_mem_components
  obtain ⟨p, ps, hp⟩ := List.exists_cons_of_ne_nil (components_ne_nil name.toList)
  rw [hp, List.getLastD_cons]
  exact List.getLastD_mem_cons

theorem mem_of_mem_simpleName {name : String} {c : Char} (h : c ∈ (simpleName name).toList) :
    c ∈ name.toList := by
  rcases exists_scope name with heq | ⟨scope, heq⟩
  · rwa [← heq] at h
  · rw [heq, toList_scope]
    simp [h]

end Scope

namespace Spelling

open Text Scope

theorem mem_of_mem_solid {s : List Char} {c : Char} (h : c ∈ solid s) : c ∈ s :=
  List.mem_of_mem_filter (List.mem_of_mem_filter h)

theorem not_colon_scopeKey {p : List Char} (h : ':' ∉ p) : ':' ∉ scopeKey p := by
  intro hcolon
  rcases mem_of_mem_collapse (mem_of_mem_dropTags (mem_of_mem_solid hcolon)) with hspace | hmem
  · exact absurd hspace (by decide)
  · exact h (mem_of_mem_removeWords hmem)

theorem enumKey_scope (s t : String) :
    enumKey (s ++ "::" ++ t) = String.ofList (scopeKey s.toList) ++ "::" ++ enumKey t := by
  rw [← String.toList_inj, toList_scope, toList_enumKey, toList_scope, keyChars_scope,
    String.toList_ofList, toList_enumKey]

theorem simpleName_enumKey_of_paired {name : String} (h : Paired name.toList) :
    simpleName (enumKey name) = simpleName (enumKey (simpleName name)) := by
  rw [← String.ofList_toList (s := name)]
  refine h.induct (motive := fun s => simpleName (enumKey (String.ofList s)) =
    simpleName (enumKey (simpleName (String.ofList s)))) ?_ ?_
  · intro s hs
    have hcolon : ':' ∉ (String.ofList s).toList := by rwa [String.toList_ofList]
    rw [simpleName_of_not_mem hcolon]
  · intro p t hp _ ih
    have hscope : String.ofList (p ++ ':' :: ':' :: t) =
        String.ofList p ++ "::" ++ String.ofList t := by
      rw [← String.toList_inj, toList_scope]
      simp
    have hpaired : Paired (String.ofList p).toList := by
      rw [String.toList_ofList]
      exact paired_of_not_mem hp
    have hkey : Paired (String.ofList (scopeKey (String.ofList p).toList)).toList := by
      rw [String.toList_ofList, String.toList_ofList]
      exact paired_of_not_mem (not_colon_scopeKey hp)
    rw [hscope, enumKey_scope, simpleName_scope hkey, simpleName_scope hpaired, ih]

theorem IsPath.scope {p q : List Char} (hp : IsPath p) (hq : IsPath q) :
    IsPath (p ++ ':' :: ':' :: q) := by
  induction hp with
  | name hn => exact .cons hn hq
  | cons hn _ ih =>
    rw [List.append_assoc, List.cons_append, List.cons_append]
    exact .cons hn ih

theorem IsPath.paired {p : List Char} (h : IsPath p) : Scope.Paired p := by
  induction h with
  | name hn => exact Scope.paired_of_not_mem hn.not_colon
  | cons hn _ ih => exact (Scope.paired_of_not_mem hn.not_colon).append_iff.2 ih

theorem IsPath.ofWords {p : List Char} (h : IsPath p) : Scope.OfWords p := by
  induction h with
  | name hn =>
    intro q hq
    rw [Scope.components_of_not_mem hn.not_colon, List.mem_singleton] at hq
    exact hq ▸ hn.word
  | cons hn _ ih =>
    intro q hq
    rw [Scope.components_append hn.not_colon] at hq
    rcases List.mem_cons.1 hq with rfl | hq
    · exact hn.word
    · exact ih q hq

theorem IsPath.not_mark {p : List Char} (h : IsPath p) {c : Char} (hc : c ∈ marks) : c ∉ p := by
  have hmarks : ∀ c ∈ marks, isWord c = false ∧ c ≠ ':' := by
    rw [marks, List.forall_mem_cons, List.forall_mem_singleton]
    decide
  obtain ⟨hword, hcolon⟩ := hmarks c hc
  induction h with
  | name hn =>
    intro hmem
    rw [hn.word c hmem] at hword
    cases hword
  | cons hn _ ih =>
    simp only [List.mem_append, List.mem_cons, hcolon, ih, or_false]
    intro hmem
    rw [hn.word c hmem] at hword
    cases hword

theorem IsPath.bareChars {p : List Char} (h : IsPath p) : bareChars p = p := by
  have hwords : removeWords qualifierWords p = p := by
    have hkeep : ∀ w ∈ runs p, w ∉ qualifierWords := fun w hw hmem =>
      h.not_mem_runs (List.mem_cons_of_mem enumWord hmem) hw
    rw [removeWords, List.filter_eq_self.2 (by simpa using hkeep), flatten_runs]
  have hmark : without ['&'] p = p := by
    rw [without, List.filter_eq_self]
    intro c hc
    have hne : c ≠ '&' := fun heq => h.not_mark (by decide) (heq ▸ hc)
    simpa using hne
  rw [Spelling.bareChars, stripQualifiersChars, hwords, squeeze, collapse_of_not_blank h.not_blank,
    trim_of_not_blank h.not_blank, hmark, trim_of_not_blank h.not_blank]

theorem IsPath.bare_eq {p : String} (h : IsPath p.toList) : bare p = p := by
  rw [bare, h.bareChars, String.ofList_toList]

theorem IsPath.normalize_eq {p : String} (h : IsPath p.toList) : normalize p = p := by
  rw [normalize, h.normalizeChars, String.ofList_toList]

theorem IsPath.enumKey_eq {p : String} (h : IsPath p.toList) : enumKey p = p := by
  rw [enumKey_of_decorates (Decorates.refl _) h, String.ofList_toList]

end Spelling

namespace EnumDef

open Spelling Scope

/-- The simple name is a word and one of the names, and all names end in it. -/
structure NamedByEnd (d : EnumDef) : Prop where
  nonempty : d.simpleName ≠ ""
  word : ∀ c ∈ d.simpleName.toList, Text.isWord c = true
  own : d.simpleName ∈ d.typeNames
  ends : ∀ n ∈ d.typeNames, Scope.simpleName (enumKey n) = d.simpleName

instance (d : EnumDef) : Decidable d.NamedByEnd :=
  decidable_of_iff
    (d.simpleName ≠ "" ∧ d.simpleName.toList.all Text.isWord = true ∧
      d.simpleName ∈ d.typeNames ∧
      ∀ n ∈ d.typeNames, Scope.simpleName (enumKey n) = d.simpleName)
    ⟨fun ⟨h₁, h₂, h₃, h₄⟩ => ⟨h₁, List.all_eq_true.1 h₂, h₃, h₄⟩,
      fun ⟨h₁, h₂, h₃, h₄⟩ => ⟨h₁, List.all_eq_true.2 h₂, h₃, h₄⟩⟩

theorem NamedByEnd.not_colon {d : EnumDef} (h : d.NamedByEnd) : ':' ∉ d.simpleName.toList := by
  intro hcolon
  exact absurd (h.word ':' hcolon) (by decide)

end EnumDef

namespace Enumeration

open Spelling Scope

theorem namedByEnd_ofClass {namespaceName owner name : String} (items : List Enumerator)
    (hns : Paired namespaceName.toList) (howner : Paired owner.toList) (h : IsName name.toList) :
    (ofClass namespaceName owner name items).NamedByEnd where
  nonempty := (wellNamed_ofClass namespaceName owner items h).simpleName_ne_empty
  word := h.word
  own := List.mem_cons_self
  ends := by
    have hsimple : simpleName name = name := simpleName_of_not_mem h.not_colon
    have hname : simpleName (enumKey name) = name := by
      rw [IsPath.enumKey_eq (.name h), hsimple]
    have hscopes : ∀ scope ∈ [owner, namespaceName ++ "::" ++ owner, "enum " ++ owner],
        Paired scope.toList := by
      rw [List.forall_mem_cons, List.forall_mem_cons, List.forall_mem_singleton, toList_scope,
        hns.append_iff, String.toList_append]
      exact ⟨howner, howner, howner.prepend (by decide)⟩
    intro n hn
    rcases mem_typeNames_ofClass hn with rfl | rfl | ⟨scope, hmem, rfl⟩
    · exact hname
    · rw [enumKey_of_decorates (decorates_enum name) (.name h), String.ofList_toList, hsimple]
      rfl
    · have hscope := hscopes scope hmem
      have hpaired : Paired (scope ++ "::" ++ name).toList := by
        rw [toList_scope, hscope.append_iff]
        exact paired_of_not_mem h.not_colon
      rw [simpleName_enumKey_of_paired hpaired, simpleName_scope hscope, hsimple, hname]
      rfl

end Enumeration

namespace Converter

open Spelling Scope

section LastComponent

variable {c : Converter} (hc : OfWords c.namespaceName.toList)

include hc

theorem simpleName_scopeText_append (s : String) :
    simpleName (c.scopeText ++ s) = simpleName s := by
  rw [scopeText]
  split
  · rw [String.empty_append]
  · exact simpleName_scope hc.paired s

theorem simpleName_of_mem_spellings {type : String} : ∀ v ∈ c.spellings type,
    simpleName v = simpleName (enumKey type) := by
  refine c.forall_spellings rfl (simpleName_scopeText_append hc _) ?_ ?_
  · intro hstart
    obtain ⟨rest, hrest⟩ := List.isPrefixOf_iff_prefix.1 hstart
    have hkey : enumKey type = c.scopeText ++ String.ofList rest := by
      rw [← String.toList_inj, String.toList_append, String.toList_ofList, hrest]
    rw [dropChars, ← hrest, ← String.length_toList, List.drop_left, hkey,
      simpleName_scopeText_append hc]
  · exact simpleName_simpleName _

variable {defs : List EnumDef} {d : EnumDef} {type : String}

theorem covers_iff_simpleName (hd : d.NamedByEnd) :
    c.Covers d type ↔ simpleName (enumKey type) = d.simpleName := by
  have hmem : ∀ {t : String}, simpleName (enumKey t) = d.simpleName →
      d.simpleName ∈ c.spellings t := by
    intro t ht
    rw [← ht]
    exact c.simpleName_mem_spellings (ht.symm ▸ hd.nonempty)
  constructor
  · rintro ⟨v, hv, n, hn, hvn⟩
    rw [← simpleName_of_mem_spellings hc v hv, simpleName_of_mem_spellings hc v hvn, hd.ends n hn]
  · intro ht
    exact ⟨d.simpleName, hmem ht, d.simpleName, hd.own, hmem (hd.ends _ hd.own)⟩

theorem resolve?_of_simpleName (hdefs : ∀ d ∈ defs, d.NamedByEnd)
    (hnodup : (defs.map (·.simpleName)).Nodup) (hd : d ∈ defs)
    (htype : simpleName (enumKey type) = d.simpleName) :
    (c.withDefs defs).resolve? type = some d := by
  obtain ⟨e, he⟩ := Option.isSome_iff_exists.1
    (isSome_resolve?_iff.2 ⟨d, hd, (covers_iff_simpleName hc (hdefs d hd)).2 htype⟩)
  obtain ⟨hmem, hcovers⟩ := covers_of_resolve? he
  rw [covers_iff_simpleName hc (hdefs e hmem), htype] at hcovers
  rw [he, List.inj_on_of_nodup_map hnodup hmem hd hcovers.symm]

theorem resolve?_of_not_mem (hdefs : ∀ d ∈ defs, d.NamedByEnd)
    (htype : simpleName (enumKey type) ∉ defs.map (·.simpleName)) :
    (c.withDefs defs).resolve? type = none := by
  rw [← Option.not_isSome_iff_eq_none, isSome_resolve?_iff]
  rintro ⟨d, hd, hcovers⟩
  rw [covers_iff_simpleName hc (hdefs d hd)] at hcovers
  exact htype (List.mem_map.2 ⟨d, hd, hcovers.symm⟩)

theorem not_blank_of_mem_spellings : ∀ v ∈ c.spellings type,
    ∀ ch ∈ v.toList, Text.isBlank ch = false := by
  have hkey : ∀ ch ∈ (enumKey type).toList, Text.isBlank ch = false := by
    intro ch hch
    rw [enumKey, String.toList_ofList] at hch
    simpa using (List.mem_filter.1 hch).2
  refine c.forall_spellings hkey ?_ ?_ ?_
  · intro ch hch
    rw [String.toList_append, List.mem_append] at hch
    rcases hch with hch | hch
    · rw [scopeText] at hch
      split at hch
      · cases hch
      · rw [String.toList_append, List.mem_append] at hch
        rcases hch with hch | hch
        · exact hc.not_blank ch hch
        · obtain rfl : ch = ':' := by simpa using hch
          rfl
    · exact hkey ch hch
  · intro _ ch hch
    rw [dropChars, String.toList_ofList] at hch
    exact hkey ch (List.mem_of_mem_drop hch)
  · intro ch hch
    exact hkey ch (mem_of_mem_simpleName hch)

theorem paired_of_mem_spellings (hkey : Paired (enumKey type).toList) :
    ∀ v ∈ c.spellings type, Paired v.toList := by
  have hscope : ∀ s : List Char, Paired (c.scopeText.toList ++ s) ↔ Paired s := by
    intro s
    rw [scopeText]
    split
    · rfl
    · rw [String.toList_append, List.append_assoc]
      exact hc.paired.append_iff
  refine c.forall_spellings hkey ?_ ?_ ?_
  · rw [String.toList_append]
    exact (hscope _).2 hkey
  · intro hstart
    obtain ⟨rest, hrest⟩ := List.isPrefixOf_iff_prefix.1 hstart
    rw [dropChars, String.toList_ofList, ← hrest, ← String.length_toList, List.drop_left]
    rw [← hrest] at hkey
    exact (hscope rest).1 hkey
  · apply paired_of_not_mem
    rw [Scope.simpleName, String.toList_ofList]
    obtain ⟨p, ps, hp⟩ := List.exists_cons_of_ne_nil (components_ne_nil (enumKey type).toList)
    rw [hp, List.getLastD_cons]
    exact hkey _ (hp ▸ List.getLastD_mem_cons)

section Entered

variable {n v : String} (hd : d.NamedByEnd) (hn : n ∈ d.typeNames) (hv : v ∈ c.spellings n)

include hd hn hv

theorem simpleName_of_entered : simpleName v = d.simpleName := by
  rw [simpleName_of_mem_spellings hc v hv, hd.ends n hn]

theorem ending_enumKey_of_entered : ending (enumKey v).toList = d.simpleName.toList := by
  have hown : ending (enumKey d.simpleName).toList = d.simpleName.toList := by
    rw [← ending_simpleName, hd.ends _ hd.own, ending_of_not_mem hd.not_colon]
  have hname := simpleName_of_entered hc hd hn hv
  rcases exists_scope v with heq | ⟨scope, heq⟩
  · rw [heq, hname, hown]
  · rw [heq, hname, Enumeration.ending_enumKey_scope, hown]

theorem keyChars_ne_nil_of_entered : keyChars v.toList ≠ [] := by
  intro hnil
  have hending := ending_enumKey_of_entered hc hd hn hv
  rw [toList_enumKey, hnil] at hending
  apply hd.nonempty
  rw [← String.toList_inj]
  exact hending.symm

theorem enumKey_of_adorned (h : Adorns v.toList type.toList) : enumKey type = enumKey v := by
  rw [← String.toList_inj, toList_enumKey, toList_enumKey]
  exact h.keyChars (not_blank_of_mem_spellings hc v hv) (keyChars_ne_nil_of_entered hc hd hn hv)

end Entered

/-- An adorned spelling of a definition resolves to it just when the spelling, normalized once more,
still has the simple name as its last component, and to nothing otherwise.  Where the colons of the
name stand in pairs it always does. -/
theorem resolve?_of_adorned (hdefs : ∀ d ∈ defs, d.NamedByEnd)
    (hnodup : (defs.map (·.simpleName)).Nodup) :
    (∀ d ∈ defs, ∀ n ∈ d.typeNames, ∀ v ∈ c.spellings n, ∀ type : String,
      Adorns v.toList type.toList →
        (c.withDefs defs).resolve? type =
          (if simpleName (enumKey v) = d.simpleName then some d else none) ∧
        (Paired (enumKey n).toList → (c.withDefs defs).resolve? type = some d)) ∧
    ∀ type, simpleName (enumKey type) ∉ defs.map (·.simpleName) →
      (c.withDefs defs).resolve? type = none := by
  refine ⟨?_, fun type htype => resolve?_of_not_mem hc hdefs htype⟩
  intro d hd n hn v hv type htype
  have hkey := enumKey_of_adorned hc (hdefs d hd) hn hv htype
  refine ⟨?_, fun hpaired => ?_⟩
  · split
    · next hname =>
      exact resolve?_of_simpleName hc hdefs hnodup hd ((congrArg simpleName hkey).trans hname)
    · next hname =>
      -- a simple name has no colon, so it could only be the end of the spelling
      apply resolve?_of_not_mem hc hdefs
      rw [hkey, List.mem_map]
      rintro ⟨e, he, hename⟩
      apply hname
      rw [← hename, ← String.toList_inj, ← ending_of_not_mem (hdefs e he).not_colon, hename,
        ending_simpleName, ending_enumKey_of_entered hc (hdefs d hd) hn hv]
  · apply resolve?_of_simpleName hc hdefs hnodup hd
    rw [hkey, simpleName_enumKey_of_paired (paired_of_mem_spellings hc hpaired v hv),
      simpleName_of_entered hc (hdefs d hd) hn hv, (hdefs d hd).ends _ (hdefs d hd).own]

end LastComponent

def colonMode : EnumDef := { trimMode with typeNames := ["TrimMode", ":con st::TrimMode"] }

/-- The key of the second name is a spelling whose own key ends in `:TrimMode`, so the spelling
resolves to nothing. -/
theorem resolve?_colonMode :
    OfWords executive.namespaceName.toList ∧ (∀ d ∈ [colonMode], d.NamedByEnd) ∧
      ([colonMode].map (·.simpleName)).Nodup ∧
      ":con st::TrimMode" ∈ colonMode.typeNames ∧
      ":const::TrimMode" ∈ executive.spellings ":con st::TrimMode" ∧
      Adorns ":const::TrimMode".toList ":const::TrimMode".toList ∧
      (executive.withDefs [colonMode]).resolve? ":const::TrimMode" = none := by
  have hns : OfWords executive.namespaceName.toList := by decide
  have hdefs : ∀ d ∈ [colonMode], d.NamedByEnd := by decide +kernel
  refine ⟨hns, hdefs, by decide, by decide, by decide +kernel, ⟨[], [], .nil, by simp, by simp⟩, ?_⟩
  apply resolve?_of_not_mem hns hdefs
  decide +kernel

def scopedMode : EnumDef :=
  Enumeration.ofClass "JSBSim" "FGFDMExec" "TrimMode" trimMode.items

theorem resolve?_of_adorned_trimMode :
    OfWords executive.namespaceName.toList ∧ (∀ d ∈ [scopedMode], d.NamedByEnd) ∧
      ([scopedMode].map (·.simpleName)).Nodup ∧
      "FGFDMExec::TrimMode" ∈ executive.spellings "enum FGFDMExec::TrimMode" ∧
      Adorns "FGFDMExec::TrimMode".toList "const enum FGFDMExec::TrimMode&".toList ∧
      (executive.withDefs [scopedMode]).resolve? "const enum FGFDMExec::TrimMode&" =
        some scopedMode ∧
      (executive.withDefs [scopedMode]).resolve? "FGFDMExec::FlapMode" = none := by
  have hns : OfWords executive.namespaceName.toList := by decide
  have hdefs : ∀ d ∈ [scopedMode], d.NamedByEnd := by
    rw [List.forall_mem_singleton]
    exact Enumeration.namedByEnd_ofClass _ (by decide) (by decide) (by decide)
  have hnodup : ([scopedMode].map (·.simpleName)).Nodup := by decide
  have hpath : ∀ name : String, IsName name.toList →
      IsPath ("FGFDMExec::" ++ name).toList := by
    intro name hname
    rw [String.toList_append]
    exact .cons (n := "FGFDMExec".toList) (by decide) (.name hname)
  have hkey : enumKey "enum FGFDMExec::TrimMode" = "FGFDMExec::TrimMode" :=
    enumKey_of_decorates (Enumeration.decorates_enum "FGFDMExec::TrimMode")
      (hpath "TrimMode" (by decide))
  have hv : "FGFDMExec::TrimMode" ∈ executive.spellings "enum FGFDMExec::TrimMode" :=
    hkey ▸ executive.enumKey_mem_spellings (hkey ▸ by decide)
  have hlead : Lead (enumWord :: qualifierWords) "const enum ".toList :=
    .word (w := constWord) (by decide) Text.isBlank_space
      (.word (w := enumWord) (by decide) Text.isBlank_space .nil)
  have htype : Adorns "FGFDMExec::TrimMode".toList "const enum FGFDMExec::TrimMode&".toList :=
    ⟨"const enum ".toList, ['&'], hlead, by simp [marks], by decide⟩
  have hflap : enumKey "FGFDMExec::FlapMode" = "FGFDMExec::FlapMode" :=
    (hpath "FlapMode" (by decide)).enumKey_eq
  obtain ⟨hknown, hunknown⟩ := resolve?_of_adorned hns hdefs hnodup
  refine ⟨hns, hdefs, hnodup, hv, htype, ?_, hunknown _ (by rw [hflap]; decide)⟩
  exact (hknown scopedMode (List.mem_singleton_self _) "enum FGFDMExec::TrimMode" (by decide)
    _ hv _ htype).2 (by rw [hkey]; decide)

end Converter

theorem Enumeration.qualifiedName_ofClass (c : Converter) (owner name : String)
    (items : List Enumerator) : (ofClass c.namespaceName owner name items).qualifiedName =
      c.scopeText ++ (owner ++ "::" ++ name) := by
  rw [ofClass, Converter.scopeText]
  split
  · rw [String.empty_append]
  · rfl

namespace Converter

open Spelling Scope

/-- The type is looked up, typed and cast as the definition. -/
structure TakenAs (c : Converter) (type : String) (d : EnumDef) (target : String) : Prop where
  resolved : c.resolve? type = some d
  typed : ∀ isReturn, c.tsType type isReturn = d.tsName
  cast : type ≠ "std::string" → type ∉ c.pathTypes → ∀ arg,
    c.cppArg type arg = "static_cast<" ++ target ++ ">(" ++ arg ++ ")"

theorem isScoped_scope (s t : String) : isScoped (s ++ "::" ++ t) = true := by
  have hoccurs : ∀ u v : List Char, Text.occursIn [':', ':'] (u ++ ':' :: ':' :: v) = true := by
    intro u v
    induction u with
    | nil => simp [Text.occursIn]
    | cons c u ih => rw [List.cons_append, Text.occursIn, ih, Bool.or_true]
  rw [isScoped, toList_scope]
  exact hoccurs _ _

theorem takenAs_of_resolve? {c : Converter} {scope name : String} {d : EnumDef}
    (hpath : IsPath (scope ++ "::" ++ name).toList) (hd : isScoped d.qualifiedName = true)
    (h : c.resolve? (scope ++ "::" ++ name) = some d) :
    c.TakenAs (scope ++ "::" ++ name) d d.qualifiedName := by
  generalize htype : scope ++ "::" ++ name = type at *
  have hvalue : c.enumByValue? type = some d := by
    have hpointer : isPointer type = false := by
      simpa [isPointer] using hpath.not_mark (c := '*') (by decide)
    have hreference : isReference type = false := by
      simpa [isReference] using hpath.not_mark (c := '&') (by decide)
    rw [enumByValue?, hpointer, hreference]
    exact h
  have hcolon : ':' ∈ type.toList := by
    rw [← htype, toList_scope]
    simp
  refine ⟨h, ?_, ?_⟩
  · intro isReturn
    rw [tsType, (carrier_eq_enumeration_iff hpath.normalize_eq).2 hvalue, Carrier.tsType]
  · intro htext hpathType arg
    have hbool : isBool type = false := by
      rw [isBool, hpath.bare_eq, beq_eq_false_iff_ne]
      rintro rfl
      exact absurd hcolon (by decide)
    have hnumeric : isNumeric type = false := by
      have hnone : ∀ t ∈ numericTypes, ':' ∉ t.toList := by decide
      rw [isNumeric, hpath.bareChars, Text.collapse_of_not_blank hpath.not_blank,
        String.ofList_toList, Bool.eq_false_iff, ne_eq, List.contains_iff_mem]
      exact fun hmem => hnone type hmem hcolon
    have htext' : isText type = false := by
      rw [isText, hpath.bare_eq, beq_eq_false_iff_ne]
      exact htext
    have hpath' : isPath c.pathTypes type = false := by
      rw [isPath, hpath.bare_eq, Bool.eq_false_iff, ne_eq, List.contains_iff_mem]
      exact hpathType
    simp only [cppArg, hbool, hnumeric, htext', hpath', hvalue, enumCppType, hd, Bool.or_self,
      Bool.false_eq_true, if_false, if_true]

theorem isPath_outer {outer name : String} (houter : IsPath outer.toList)
    (hname : IsName name.toList) : IsPath (outer ++ "::" ++ name).toList := by
  rw [toList_scope]
  exact houter.scope (.name hname)

theorem exists_outer {c : Converter} (hns : c.namespaceName = "" ∨ IsPath c.namespaceName.toList)
    {scope name type : String} (hscope : IsPath scope.toList)
    (htype : type ∈ [scope ++ "::" ++ name, c.scopeText ++ (scope ++ "::" ++ name)]) :
    ∃ outer : String, IsPath outer.toList ∧ type = outer ++ "::" ++ name := by
  simp only [List.mem_cons, List.not_mem_nil, or_false] at htype
  rcases htype with rfl | rfl
  · exact ⟨scope, hscope, rfl⟩
  · refine ⟨c.scopeText ++ scope, ?_, by simp only [String.append_assoc]⟩
    rw [scopeText]
    split
    · rwa [String.empty_append]
    · next hne =>
      rw [toList_scope]
      exact (hns.resolve_left (by simpa using hne)).scope hscope

theorem resolve?_of_outer {c : Converter} {defs : List EnumDef} (hdefs : WellNamedDefs defs)
    {d : EnumDef} (hd : d ∈ defs) {outer : String} (houter : IsPath outer.toList) :
    (c.withDefs defs).resolve? (outer ++ "::" ++ d.simpleName) = some d := by
  have hname := (hdefs.wellNamed d hd).isName
  refine hdefs.resolve?_eq_some_iff.2 ⟨hd, (hdefs.wellNamed d hd).covers_of_simpleName ?_ c⟩
  rw [(isPath_outer houter hname).enumKey_eq, simpleName_scope houter.paired,
    simpleName_of_not_mem hname.not_colon]

theorem resolve?_of_foreign_name {c : Converter} {className : Json} {vs : List Json}
    {s : Enumeration.Declared} (hs : Enumeration.Sound c.namespaceName className vs s)
    (hns : c.namespaceName = "" ∨ IsPath c.namespaceName.toList)
    (hvs : ∀ name ∈ Enumeration.enumNames vs, IsName name.toList) {type : String}
    (hcolon : ':' ∉ (simpleName (enumKey type)).toList ∨
      ∀ owner, className = .str owner → Paired owner.toList)
    (htype : simpleName (enumKey type) ∉ s.enums.map (·.simpleName)) :
    (c.withDefs s.enums).resolve? type = none := by
  rcases hcolon with hcolon | howner
  · rw [← Option.not_isSome_iff_eq_none, isSome_resolve?_iff]
    rintro ⟨d, hd, hcovers⟩
    have hending := ((hs.wellNamedDefs hvs).wellNamed d hd).ending_of_covers hcovers
    rw [← ending_simpleName, ending_of_not_mem hcolon, String.toList_inj] at hending
    exact htype (List.mem_map.2 ⟨d, hd, hending.symm⟩)
  · have hwords : OfWords c.namespaceName.toList := by
      rcases hns with hns | hns
      · rw [hns]
        decide
      · exact hns.ofWords
    refine resolve?_of_not_mem hwords (fun d hd => ?_) htype
    obtain ⟨name, hname, owner, items, hclass, rfl⟩ := hs.declared d hd
    exact Enumeration.namedByEnd_ofClass items hwords.paired (howner owner hclass)
      (hvs name hname)

/-- The scope of a type does not count: whatever class owns it, a type that ends in the name of an
enumeration of the bound class is looked up, typed and cast as that enumeration, and any type that
ends in another name resolves to nothing. -/
theorem scope_not_counted {c : Converter} {cls : Json} {own : Enumeration.ClassEnums}
    (hns : c.namespaceName = "" ∨ IsPath c.namespaceName.toList)
    (hcls : ∀ name ∈ Enumeration.enumNames (Tree.children cls), IsName name.toList)
    (hown : Enumeration.ofClassNode c.namespaceName cls = .ok own) {scope : String}
    (hscope : IsPath scope.toList) :
    (∀ d ∈ own.enums, ∃ owner, ClassBody.className cls = .str owner ∧
      ∀ type ∈ [scope ++ "::" ++ d.simpleName, c.scopeText ++ (scope ++ "::" ++ d.simpleName)],
        (c.withDefs own.enums).TakenAs type d
          (c.scopeText ++ (owner ++ "::" ++ d.simpleName))) ∧
    (∀ name : String, IsName name.toList → name ∉ own.enums.map (·.simpleName) →
      ∀ type ∈ [scope ++ "::" ++ name, c.scopeText ++ (scope ++ "::" ++ name)],
        (c.withDefs own.enums).resolve? type = none) ∧
    ∀ type, (':' ∉ (simpleName (enumKey type)).toList ∨
        ∀ owner, ClassBody.className cls = .str owner → Paired owner.toList) →
      simpleName (enumKey type) ∉ own.enums.map (·.simpleName) →
        (c.withDefs own.enums).resolve? type = none := by
  obtain ⟨s, hs, rfl⟩ := Enumeration.exists_declared hown
  have hdefs : WellNamedDefs s.result.enums := hs.wellNamedDefs hcls
  refine ⟨?_, ?_, fun type => resolve?_of_foreign_name hs hns hcls⟩
  · intro d hd
    obtain ⟨name, hname, owner, items, howner, rfl⟩ := hs.declared d hd
    refine ⟨owner, howner, ?_⟩
    intro type htype
    obtain ⟨outer, houter, rfl⟩ := exists_outer hns hscope htype
    have htarget := Enumeration.qualifiedName_ofClass c owner name items
    have hscoped : isScoped (c.scopeText ++ (owner ++ "::" ++ name)) = true := by
      rw [← String.append_assoc, ← String.append_assoc]
      exact isScoped_scope _ _
    rw [← htarget] at hscoped
    change TakenAs _ (outer ++ "::" ++ name) _ (c.scopeText ++ (owner ++ "::" ++ name))
    rw [← htarget]
    exact takenAs_of_resolve? (isPath_outer houter (hcls name hname)) hscoped
      (resolve?_of_outer hdefs hd houter)
  · intro name hname hnone type htype
    obtain ⟨outer, houter, rfl⟩ := exists_outer hns hscope htype
    have hlast : simpleName (enumKey (outer ++ "::" ++ name)) = name := by
      rw [(isPath_outer houter hname).enumKey_eq, simpleName_scope houter.paired,
        simpleName_of_not_mem hname.not_colon]
    apply resolve?_of_foreign_name hs hns hcls (.inl (hlast.symm ▸ hname.not_colon))
    rwa [hlast]

theorem isPath_trim : IsPath "FGTrim".toList := .name (by decide)

theorem isPath_scopedTrim : IsPath "JSBSim::FGTrim".toList := by
  rw [show "JSBSim::FGTrim".toList = "JSBSim".toList ++ ':' :: ':' :: "FGTrim".toList from rfl]
  exact .cons (by decide) isPath_trim

theorem exists_trimEnums : ∃ d, Metadata.trimEnums.enums = [d] ∧ d.simpleName = "TrimMode" ∧
    d.qualifiedName = "JSBSim::FGFDMExec::TrimMode" := by
  obtain ⟨-, hsimple, -, hqualified⟩ := Metadata.names_trimEnums
  obtain ⟨d, hd, hname⟩ := List.map_eq_singleton_iff.1 hsimple
  rw [hd] at hqualified
  exact ⟨d, hd, hname, (List.cons.inj hqualified).1⟩

/-- Trim modes of `FGTrim` are taken as those of the executive. -/
theorem takenAs_foreign_trimMode : ∃ d ∈ Metadata.trimEnums.enums,
    Enumeration.ofClassNode "JSBSim" Metadata.trimClass = .ok Metadata.trimEnums ∧
      ClassBody.className Metadata.trimClass = .str "FGFDMExec" ∧
      d.qualifiedName = "JSBSim::FGFDMExec::TrimMode" ∧
      (executive.withDefs Metadata.trimEnums.enums).resolve? "FGTrim::TrimMode" = some d ∧
      (executive.withDefs Metadata.trimEnums.enums).resolve? "JSBSim::FGTrim::TrimMode" =
        some d ∧
      (executive.withDefs Metadata.trimEnums.enums).cppArg "FGTrim::TrimMode" "mode" =
        "static_cast<JSBSim::FGFDMExec::TrimMode>(mode)" := by
  obtain ⟨d, henums, hname, hqualified⟩ := exists_trimEnums
  have hd : d ∈ Metadata.trimEnums.enums := by simp [henums]
  have hinner := resolve?_of_outer (c := executive) Metadata.wellNamedDefs_trimEnums hd isPath_trim
  have houter := resolve?_of_outer (c := executive) Metadata.wellNamedDefs_trimEnums hd
    isPath_scopedTrim
  rw [hname] at hinner houter
  have htaken := takenAs_of_resolve? (isPath_outer isPath_trim (by decide))
    (by rw [hqualified]; decide) hinner
  refine ⟨d, hd, Metadata.ofClassNode_trimClass, rfl, hqualified, hinner, houter, ?_⟩
  have hcast := htaken.cast (by decide) (by decide) "mode"
  rwa [hqualified] at hcast

theorem scope_not_counted_trimMode : IsPath "JSBSim".toList ∧ IsPath "FGTrim".toList ∧
    (∀ name ∈ Enumeration.enumNames (Tree.children Metadata.trimClass), IsName name.toList) ∧
    Enumeration.ofClassNode "JSBSim" Metadata.trimClass = .ok Metadata.trimEnums ∧
    (∃ d ∈ Metadata.trimEnums.enums,
      (executive.withDefs Metadata.trimEnums.enums).TakenAs "JSBSim::FGTrim::TrimMode" d
        "JSBSim::FGFDMExec::TrimMode") ∧
    (executive.withDefs Metadata.trimEnums.enums).resolve? "FGTrim::FlapMode" = none ∧
    (executive.withDefs Metadata.trimEnums.enums).resolve? "const enum FlapMode&" = none := by
  obtain ⟨d, henums, hname, -⟩ := exists_trimEnums
  have hd : d ∈ Metadata.trimEnums.enums := by simp [henums]
  have hns : IsPath "JSBSim".toList := .name (by decide)
  have hflap : "FlapMode" ∉ Metadata.trimEnums.enums.map (·.simpleName) := by
    rw [Metadata.names_trimEnums.2.1]
    decide
  have hpath : IsPath "FlapMode".toList := .name (by decide)
  have htype : Decorates "FlapMode".toList "const enum FlapMode&".toList :=
    ⟨"const enum ".toList, ['&'], .word (w := constWord) (by decide) Text.isBlank_space
      (.word (w := enumWord) (by decide) Text.isBlank_space .nil), .gap (by decide) .nil,
      by decide⟩
  have hkey : simpleName (enumKey "const enum FlapMode&") = "FlapMode" := by
    rw [enumKey_of_decorates htype hpath]
    decide
  obtain ⟨hknown, hunknown, hforeign⟩ := scope_not_counted (c := executive) (.inr hns)
    Metadata.isName_trimClass Metadata.ofClassNode_trimClass isPath_trim
  obtain ⟨owner, howner, htaken⟩ := hknown d hd
  cases Json.str.inj howner
  rw [hname] at htaken
  refine ⟨hns, isPath_trim, Metadata.isName_trimClass, Metadata.ofClassNode_trimClass,
    ⟨d, hd, htaken "JSBSim::FGTrim::TrimMode" (by decide)⟩,
    hunknown "FlapMode" (by decide) hflap _ List.mem_cons_self, ?_⟩
  exact hforeign _ (.inl (by rw [hkey]; decide)) (by rwa [hkey])

end Converter

end WasmBindings
