import Mathlib.Data.List.Induction
import Mathlib.Data.List.Nodup
import WasmBindings.Conversion
import WasmBindings.Proofs.Cpp.Scope

/-!
Looking enumerations up.  All spellings of a type end alike, so where every name of a definition
ends in its simple name and simple names are distinct, a type has one definition at most, whatever
the order in which the table was filled.
-/

namespace WasmBindings

theorem Table.get?_foldl_insert {α : Type} (ks : List String) (a : α) (t : Table String α)
    (v : String) :
    (ks.foldl (fun t k => t.insert k a) t).get? v = if v ∈ ks then some a else t.get? v := by
  induction ks generalizing t with
  | nil => simp
  | cons k ks ih =>
    rw [List.foldl_cons, ih]
    by_cases hks : v ∈ ks
    · simp [hks]
    · by_cases hk : v = k
      · subst hk
        simp [hks]
      · simp [hks, hk, Table.get?_insert_of_ne]

@[simp] theorem mem_sortedTexts {texts : List String} {s : String} :
    s ∈ sortedTexts texts ↔ s ∈ texts := by
  simp [sortedTexts]

namespace Converter

open Scope

theorem mem_addSpelling_of_mem {found : List String} {v : String} (h : v ∈ found) (s : String) :
    v ∈ addSpelling found s := by
  rw [addSpelling]
  split
  · exact h
  · exact List.mem_append_left _ h

theorem mem_addSpelling_self (found : List String) {s : String} (h : s ≠ "") :
    s ∈ addSpelling found s := by
  rw [addSpelling]
  split
  · next hs => simpa [h] using hs
  · simp

theorem forall_addSpelling {P : String → Prop} {found : List String} {s : String}
    (h : ∀ v ∈ found, P v) (hs : P s) : ∀ v ∈ addSpelling found s, P v := by
  intro v hv
  rw [addSpelling] at hv
  split at hv
  · exact h v hv
  · rcases List.mem_append.1 hv with hv | hv
    · exact h v hv
    · rw [List.mem_singleton.1 hv]
      exact hs

theorem forall_ite_addSpelling {P : String → Prop} {found : List String} {s : String} {b : Bool}
    (h : ∀ v ∈ found, P v) (hs : b = true → P s) :
    ∀ v ∈ (if b then addSpelling found s else found), P v := by
  split
  · next hb => exact forall_addSpelling h (hs hb)
  · exact h

theorem mem_ite_addSpelling {found : List String} {s v : String} {b : Bool} (h : v ∈ found) :
    v ∈ (if b then addSpelling found s else found) := by
  split
  · exact mem_addSpelling_of_mem h s
  · exact h

variable (c : Converter)

theorem ending_scopeText_append (s : List Char) :
    ending (c.scopeText.toList ++ s) = ending s := by
  rw [scopeText]
  split
  · rfl
  · simpa using ending_scope c.namespaceName.toList s

theorem ending_dropChars {base : String} (h : startsWith base c.scopeText = true) :
    ending (dropChars base c.scopeText.length).toList = ending base.toList := by
  obtain ⟨rest, hrest⟩ := List.isPrefixOf_iff_prefix.1 h
  rw [dropChars, String.toList_ofList, ← hrest, ending_scopeText_append, ← String.length_toList,
    List.drop_left]

theorem startsWith_of_append {base s t : String} (h : startsWith base (s ++ t) = true) :
    startsWith base s = true := by
  rw [startsWith, List.isPrefixOf_iff_prefix] at h ⊢
  rw [String.toList_append] at h
  exact (List.prefix_append s.toList t.toList).trans h

theorem forall_spellings {P : String → Prop} {type : String} (hkey : P (Spelling.enumKey type))
    (hlonger : P (c.scopeText ++ Spelling.enumKey type))
    (hinner : startsWith (Spelling.enumKey type) c.scopeText = true →
      P (dropChars (Spelling.enumKey type) c.scopeText.length))
    (hsimple : P (Scope.simpleName (Spelling.enumKey type))) : ∀ v ∈ c.spellings type, P v := by
  rw [spellings]
  split
  · simp
  · dsimp only
    refine forall_ite_addSpelling (forall_ite_addSpelling (forall_ite_addSpelling ?_ ?_) ?_) ?_
    · split
      · simpa using hkey
      · apply forall_addSpelling
        · simpa using hkey
        · split
          · next hstart => exact hinner hstart
          · exact hlonger
    · intro _
      exact hlonger
    · intro hstart
      exact hinner (startsWith_of_append (Bool.and_eq_true_iff.1 hstart).2)
    · intro _
      exact hsimple

theorem ending_of_mem_spellings {type : String} : ∀ v ∈ c.spellings type,
    ending v.toList = ending (Spelling.enumKey type).toList := by
  refine c.forall_spellings rfl ?_ c.ending_dropChars (ending_simpleName _)
  rw [String.toList_append, ending_scopeText_append]

theorem enumKey_mem_spellings {type : String} (h : Spelling.enumKey type ≠ "") :
    Spelling.enumKey type ∈ c.spellings type := by
  rw [spellings, if_neg (by simpa using h)]
  apply mem_ite_addSpelling
  apply mem_ite_addSpelling
  apply mem_ite_addSpelling
  split
  · exact List.mem_singleton_self _
  · exact mem_addSpelling_of_mem (List.mem_singleton_self _) _

theorem simpleName_mem_spellings {type : String}
    (h : Scope.simpleName (Spelling.enumKey type) ≠ "") :
    Scope.simpleName (Spelling.enumKey type) ∈ c.spellings type := by
  have hkey : Spelling.enumKey type ≠ "" := by
    intro he
    rw [he] at h
    exact h rfl
  cases hscoped : Scope.isScoped (Spelling.enumKey type) with
  | false =>
    rw [simpleName_of_not_scoped hscoped]
    exact c.enumKey_mem_spellings hkey
  | true =>
    rw [spellings, if_neg (by simpa using hkey)]
    dsimp only
    rw [if_pos hscoped]
    exact mem_addSpelling_self _ h

def Names (d : EnumDef) (v : String) : Prop := ∃ n ∈ d.typeNames, v ∈ c.spellings n

instance (d : EnumDef) (v : String) : Decidable (c.Names d v) :=
  inferInstanceAs (Decidable (∃ n ∈ d.typeNames, v ∈ c.spellings n))

/-- The definition has a spelling of the type. -/
def Covers (d : EnumDef) (type : String) : Prop := ∃ v ∈ c.spellings type, c.Names d v

theorem get?_enterNames (names : List String) (d : EnumDef) (t : Table String EnumDef)
    (v : String) :
    (names.foldl (fun t n => (c.spellings n).foldl (fun t s => t.insert s d) t) t).get? v =
      if ∃ n ∈ names, v ∈ c.spellings n then some d else t.get? v := by
  induction names generalizing t with
  | nil => simp
  | cons n names ih =>
    rw [List.foldl_cons, ih, Table.get?_foldl_insert]
    by_cases hn : v ∈ c.spellings n <;> by_cases hnames : ∃ n ∈ names, v ∈ c.spellings n <;>
      simp [hn, hnames]

theorem get?_enumTable_concat (defs : List EnumDef) (d : EnumDef) (v : String) :
    (c.enumTable (defs ++ [d])).get? v =
      if c.Names d v then some d else (c.enumTable defs).get? v := by
  rw [enumTable, List.foldl_append, ← enumTable, List.foldl_cons, List.foldl_nil, get?_enterNames]
  exact if_congr (by simp only [mem_sortedTexts, Names]) rfl rfl

variable {c} {defs : List EnumDef} {d : EnumDef} {v type : String}

theorem names_of_get?_enumTable (h : (c.enumTable defs).get? v = some d) :
    d ∈ defs ∧ c.Names d v := by
  induction defs using List.reverseRecOn with
  | nil => cases h
  | append_singleton defs e ih =>
    rw [get?_enumTable_concat] at h
    split at h
    · next hnames =>
      cases h
      exact ⟨by simp, hnames⟩
    · obtain ⟨hd, hnames⟩ := ih h
      exact ⟨List.mem_append_left _ hd, hnames⟩

theorem isSome_get?_enumTable (hd : d ∈ defs) (h : c.Names d v) :
    ((c.enumTable defs).get? v).isSome = true := by
  induction defs using List.reverseRecOn with
  | nil => cases hd
  | append_singleton defs e ih =>
    rw [get?_enumTable_concat]
    split
    · rfl
    · next hnames =>
      rcases List.mem_append.1 hd with hd | hd
      · exact ih hd
      · exact absurd (List.mem_singleton.1 hd ▸ h) hnames

theorem covers_of_resolve? (h : (c.withDefs defs).resolve? type = some d) :
    d ∈ defs ∧ c.Covers d type := by
  obtain ⟨v, hv, hget⟩ := List.exists_of_findSome?_eq_some h
  obtain ⟨hd, hnames⟩ := names_of_get?_enumTable hget
  exact ⟨hd, v, hv, hnames⟩

theorem isSome_resolve?_iff : ((c.withDefs defs).resolve? type).isSome = true ↔
    ∃ d ∈ defs, c.Covers d type := by
  constructor
  · intro h
    obtain ⟨d, hd⟩ := Option.isSome_iff_exists.1 h
    exact ⟨d, covers_of_resolve? hd⟩
  · rintro ⟨d, hd, v, hv, hnames⟩
    rw [resolve?, List.findSome?_isSome_iff]
    exact ⟨v, hv, isSome_get?_enumTable hd hnames⟩

end Converter

namespace EnumDef

open Spelling

/-- Every spelling of the definition ends in its simple name, which is one of them. -/
structure WellNamed (d : EnumDef) : Prop where
  isName : IsName d.simpleName.toList
  own : d.simpleName ∈ d.typeNames
  ending : ∀ n ∈ d.typeNames, Scope.ending (enumKey n).toList = d.simpleName.toList

variable {c : Converter} {d e : EnumDef} {v type : String}

theorem WellNamed.ending_of_names (h : d.WellNamed) (hv : c.Names d v) :
    Scope.ending v.toList = d.simpleName.toList := by
  obtain ⟨n, hn, hv⟩ := hv
  rw [c.ending_of_mem_spellings v hv, h.ending n hn]

theorem WellNamed.ending_of_covers (h : d.WellNamed) (hd : c.Covers d type) :
    Scope.ending (enumKey type).toList = d.simpleName.toList := by
  obtain ⟨v, hv, hnames⟩ := hd
  rw [← c.ending_of_mem_spellings v hv, h.ending_of_names hnames]

theorem WellNamed.enumKey_simpleName (h : d.WellNamed) :
    enumKey d.simpleName = d.simpleName := by
  rw [← String.toList_inj, toList_enumKey, h.isName.keyChars]

theorem WellNamed.simpleName_ne_empty (h : d.WellNamed) : d.simpleName ≠ "" := by
  intro he
  exact h.isName.nonempty (by rw [he]; rfl)

theorem WellNamed.names_simpleName (h : d.WellNamed) (c : Converter) :
    c.Names d d.simpleName := by
  refine ⟨d.simpleName, h.own, ?_⟩
  have hmem := c.enumKey_mem_spellings (h.enumKey_simpleName.symm ▸ h.simpleName_ne_empty)
  rwa [h.enumKey_simpleName] at hmem

theorem WellNamed.covers_of_simpleName (h : d.WellNamed)
    (htype : Scope.simpleName (enumKey type) = d.simpleName) (c : Converter) :
    c.Covers d type := by
  have hmem := c.simpleName_mem_spellings (htype.symm ▸ h.simpleName_ne_empty)
  rw [htype] at hmem
  exact ⟨d.simpleName, hmem, h.names_simpleName c⟩

end EnumDef

structure WellNamedDefs (defs : List EnumDef) : Prop where
  wellNamed : ∀ d ∈ defs, d.WellNamed
  nodup : (defs.map (·.simpleName)).Nodup

namespace WellNamedDefs

variable {c : Converter} {defs more : List EnumDef} {d e : EnumDef} {type : String}

theorem eq_of_covers (h : WellNamedDefs defs) (hd : d ∈ defs) (he : e ∈ defs)
    (hcd : c.Covers d type) (hce : c.Covers e type) : d = e := by
  have hname : d.simpleName.toList = e.simpleName.toList := by
    rw [← (h.wellNamed d hd).ending_of_covers hcd, (h.wellNamed e he).ending_of_covers hce]
  exact List.inj_on_of_nodup_map h.nodup hd he (String.toList_inj.1 hname)

theorem resolve?_eq_some_iff (h : WellNamedDefs defs) :
    (c.withDefs defs).resolve? type = some d ↔ d ∈ defs ∧ c.Covers d type := by
  constructor
  · exact Converter.covers_of_resolve?
  · rintro ⟨hd, hcovers⟩
    obtain ⟨e, he⟩ :=
      Option.isSome_iff_exists.1 (Converter.isSome_resolve?_iff.2 ⟨d, hd, hcovers⟩)
    obtain ⟨hmem, hcovers'⟩ := Converter.covers_of_resolve? he
    rw [he, h.eq_of_covers hmem hd hcovers' hcovers]

theorem isSome_resolve?_iff (h : WellNamedDefs defs) {path : String}
    (hpath : Spelling.IsPath path.toList)
    (htype : Spelling.Decorates path.toList type.toList) :
    ((c.withDefs defs).resolve? type).isSome = true ↔
      Scope.simpleName path ∈ defs.map (·.simpleName) := by
  have hkey : Spelling.enumKey type = path := by
    rw [Spelling.enumKey_of_decorates htype hpath, String.ofList_toList]
  rw [Converter.isSome_resolve?_iff, List.mem_map]
  constructor
  · rintro ⟨d, hd, hcovers⟩
    have hending := (h.wellNamed d hd).ending_of_covers hcovers
    rw [hkey, hpath.ending_eq, String.toList_inj] at hending
    exact ⟨d, hd, hending.symm⟩
  · rintro ⟨d, hd, hname⟩
    exact ⟨d, hd, (h.wellNamed d hd).covers_of_simpleName (by rw [hkey, hname]) c⟩

theorem resolve?_eq_none_iff (h : WellNamedDefs defs) {path : String}
    (hpath : Spelling.IsPath path.toList)
    (htype : Spelling.Decorates path.toList type.toList) :
    (c.withDefs defs).resolve? type = none ↔ Scope.simpleName path ∉ defs.map (·.simpleName) := by
  rw [← Option.not_isSome_iff_eq_none, h.isSome_resolve?_iff hpath htype]

theorem resolve?_of_isPrefix (h : WellNamedDefs more) (hmore : defs <+: more)
    (hd : (c.withDefs defs).resolve? type = some d) :
    (c.withDefs more).resolve? type = some d := by
  obtain ⟨hmem, hcovers⟩ := Converter.covers_of_resolve? hd
  exact h.resolve?_eq_some_iff.2 ⟨hmore.subset hmem, hcovers⟩

end WellNamedDefs

end WasmBindings
