import WasmBindings.Metadata.Build
import WasmBindings.Proofs.ClassEnums

namespace WasmBindings

namespace Spelling

open Text

theorem IsPath.not_blank {p : List Char} (h : IsPath p) : ∀ c ∈ p, isBlank c = false := by
  induction h with
  | name hn => exact fun c => hn.not_blank
  | cons hn _ ih =>
    intro c hc
    simp only [List.mem_append, List.mem_cons] at hc
    rcases hc with hc | rfl | rfl | hc
    · exact hn.not_blank hc
    · decide
    · decide
    · exact ih c hc

theorem IsPath.not_mem_runs {p w : List Char} (h : IsPath p) (hw : w ∈ enumWord :: qualifierWords) :
    w ∉ runs p := by
  have hcolon : ∀ w ∈ enumWord :: qualifierWords, w ≠ [':'] := by decide
  have hname : ∀ {n : List Char}, IsName n → w ≠ n := by
    rintro n hn rfl
    exact hn.free hw
  induction h with
  | name hn => simp [runs_of_word hn.nonempty hn.word, hname hn]
  | cons hn _ ih =>
    have hword : isWord ':' = false := by decide
    simp [runs_append_cons hword, runs_cons_of_not_word hword, runs_of_word hn.nonempty hn.word,
      hname hn, hcolon w hw, ih]

theorem tightenFrom_of_not_blank {s : List Char} (h : ∀ c ∈ s, isBlank c = false)
    (afterMark : Bool) : tightenFrom afterMark s = s := by
  induction s generalizing afterMark with
  | nil => rfl
  | cons c s ih =>
    have hc : c ≠ ' ' := by
      rintro rfl
      exact absurd (h ' ' List.mem_cons_self) (by decide)
    simp [tightenFrom, hc, ih fun d hd => h d (List.mem_cons_of_mem c hd)]

theorem IsPath.normalizeChars {p : List Char} (h : IsPath p) : normalizeChars p = p := by
  have hcollapse := collapse_append_of_not_blank h.not_blank []
  simp only [List.append_nil, show collapse [] = [] from rfl] at hcollapse
  have hconst : constWord ∉ runs p := h.not_mem_runs (by decide)
  rw [Spelling.normalizeChars, hcollapse, tighten, tightenFrom_of_not_blank h.not_blank, spaceAfter,
    spaceAfterFrom_of_not_mem hconst, flatten_runs, trim_of_not_blank h.not_blank]

theorem IsPath.normalize_dropEnum {p : String} (h : IsPath p.toList) :
    normalize (dropEnum p) = p := by
  rw [normalize, dropEnum, String.toList_ofList, dropLeadingTag_of_not_blank h.not_blank,
    h.normalizeChars, String.ofList_toList]

end Spelling

open Spelling

structure IsExternal (path : String) (d : EnumDef) : Prop where
  tsName : d.tsName = Scope.simpleName path
  simpleName : d.simpleName = Scope.simpleName path
  isPath : IsPath d.qualifiedName.toList
  last : Scope.simpleName d.qualifiedName = Scope.simpleName path
  typeNames : ∀ n, n ∈ d.typeNames ↔
    n = d.simpleName ∨ n = d.qualifiedName ∨ n = "enum " ++ d.simpleName

theorem IsExternal.isName {path : String} {d : EnumDef} (h : IsExternal path d) :
    IsName d.simpleName.toList := by
  rw [h.simpleName, ← h.last]
  exact h.isPath.isName_simpleName

theorem IsExternal.wellNamed {path : String} {d : EnumDef} (h : IsExternal path d) :
    d.WellNamed where
  isName := h.isName
  own := (h.typeNames d.simpleName).2 (.inl rfl)
  ending := by
    intro n hn
    rcases (h.typeNames n).1 hn with rfl | rfl | rfl
    · exact Enumeration.ending_enumKey_name h.isName
    · rw [toList_enumKey, (Decorates.refl _).keyChars h.isPath, h.isPath.ending_eq, h.last,
        h.simpleName]
    · exact Enumeration.ending_enumKey_tagged h.isName

theorem isExternal_external {path : String} (h : IsPath path.toList) (items : List Enumerator) :
    IsExternal path (Enumeration.external (Scope.simpleName path) path items) := by
  have hpath := h.normalize_dropEnum
  constructor <;> simp [Enumeration.external, hpath, h]

theorem external_of_parseExternal {tree : Json} {simple qualified : String} {d : EnumDef}
    (h : Enumeration.parseExternal tree simple qualified = .ok (some d)) :
    ∃ items, d = Enumeration.external simple qualified items := by
  obtain ⟨decl, -, h⟩ := Outcome.bind_eq_ok.1 h
  split at h
  · cases h
  · obtain ⟨items, -, h⟩ := Outcome.bind_eq_ok.1 h
    split at h
    · cases h
    · cases h
      exact ⟨items, rfl⟩

namespace EnumResolver

variable {r : EnumResolver} {w w' : Workspace} {d : EnumDef}

theorem external_of_probe {qualified simple : String} {attempts : List (String × String)}
    (h : (r.probe qualified simple attempts).run.run w = (.ok (some d), w')) :
    ∃ items, d = Enumeration.external simple qualified items := by
  induction attempts generalizing w with
  | nil =>
    obtain ⟨-, -, -, h⟩ := Session.run_bind_eq_ok.1 h
    cases h
  | cons attempt attempts ih =>
    obtain ⟨-, w₁, -, h⟩ := Session.run_bind_eq_ok.1 h
    obtain ⟨tree, w₂, -, h⟩ := Session.run_bind_eq_ok.1 h
    cases tree with
    | none => exact ih h
    | some tree =>
      obtain ⟨found, w₃, hfound, h⟩ := Session.run_bind_eq_ok.1 h
      cases found with
      | none => exact ih h
      | some e =>
        obtain ⟨-, w₄, -, h⟩ := Session.run_bind_eq_ok.1 h
        cases h
        exact external_of_parseExternal (Session.run_ofExcept_eq_ok hfound)

theorem external_of_resolve {type : String}
    (h : (r.resolve type).run.run w = (.ok (some d), w')) :
    ∃ items, d = Enumeration.external (Scope.simpleName (enumKey type)) (enumKey type) items := by
  rw [resolve] at h
  dsimp only at h
  split at h
  · cases h
  · obtain ⟨-, w₁, -, h⟩ := Session.run_bind_eq_ok.1 h
    obtain ⟨files, w₂, -, h⟩ := Session.run_bind_eq_ok.1 h
    obtain ⟨headers, w₃, -, h⟩ := Session.run_bind_eq_ok.1 h
    exact external_of_probe h

end EnumResolver

theorem external_of_resolveWith {resolver : Option EnumResolver} {type : String} {d : EnumDef}
    {w w' : Workspace}
    (h : (Metadata.resolveWith resolver type).run.run w = (.ok (some d), w')) :
    ∃ items, d = Enumeration.external (Scope.simpleName (enumKey type)) (enumKey type) items := by
  cases resolver with
  | none => cases h
  | some r =>
    simp only [Metadata.resolveWith] at h
    exact EnumResolver.external_of_resolve h

theorem isExternal_of_resolveWith {resolver : Option EnumResolver} {path type : String}
    {d : EnumDef} {w w' : Workspace} (hpath : IsPath path.toList)
    (htype : Decorates path.toList type.toList)
    (h : (Metadata.resolveWith resolver type).run.run w = (.ok (some d), w')) :
    IsExternal path d := by
  obtain ⟨items, rfl⟩ := external_of_resolveWith h
  rw [enumKey_of_decorates htype hpath, String.ofList_toList]
  exact isExternal_external hpath items

end WasmBindings
