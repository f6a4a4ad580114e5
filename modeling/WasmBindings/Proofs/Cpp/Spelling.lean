import WasmBindings.Cpp.Spelling
import WasmBindings.Proofs.Text.Blank

namespace WasmBindings.Spelling

open Text

theorem dropTagsFrom_of_not_mem {tags ws : List (List Char)} (h : ∀ w ∈ ws, w ∉ tags) :
    dropTagsFrom tags false ws = ws.flatten := by
  induction ws with
  | nil => rfl
  | cons w ws ih =>
    have hw : w ∉ tags := h w List.mem_cons_self
    have hws := ih fun v hv => h v (List.mem_cons_of_mem w hv)
    simp [dropTagsFrom, hw, hws]

theorem dropTags_enum_of_not_mem {s : List Char} (h : 'm' ∉ s) : dropTags [enumWord] s = s := by
  have hruns : ∀ w ∈ runs s, w ∉ [enumWord] := by
    intro w hw he
    apply h
    rw [← flatten_runs s]
    exact List.mem_flatten.2 ⟨w, hw, by rw [List.mem_singleton.1 he]; decide⟩
  rw [dropTags, dropTagsFrom_of_not_mem hruns, flatten_runs]

@[simp] theorem toList_bare (type : String) : (bare type).toList = bareChars type.toList :=
  String.toList_ofList

theorem withoutBlanks_bare (type : String) :
    withoutBlanks (bare type).toList =
      withoutBlanks (without ['&'] (stripQualifiersChars type.toList)) := by
  rw [toList_bare, bareChars, withoutBlanks_trim]

theorem not_mem_stripQualifiersChars {type : String} {c : Char} (hc : c ≠ '&')
    (hblank : isBlank c = false) (h : c ∉ withoutBlanks (bare type).toList) :
    c ∉ stripQualifiersChars type.toList := by
  intro hmem
  apply h
  rw [withoutBlanks_bare]
  simp [withoutBlanks, without, hmem, hc, hblank]

theorem enumKey_of_bare {type : String} {key : List Char}
    (h : withoutBlanks (bare type).toList = key) (hm : 'm' ∉ key) (hstar : '*' ∉ key) :
    enumKey type = String.ofList key := by
  subst h
  have hm' := not_mem_stripQualifiersChars (by decide) (by decide) hm
  have hstar' := not_mem_stripQualifiersChars (by decide) (by decide) hstar
  have hmarks : without ['&', '*'] (stripQualifiersChars type.toList) =
      without ['&'] (stripQualifiersChars type.toList) := by
    apply List.filter_congr
    intro c hmem
    have hc : c ≠ '*' := fun e => hstar' (e ▸ hmem)
    simp [hc]
  rw [enumKey, dropTags_enum_of_not_mem hm', hmarks, withoutBlanks_bare]

theorem mem_numericTypes {type : String} (h : isNumeric type = true) :
    String.ofList (collapse (bare type).toList) ∈ numericTypes := by
  rw [isNumeric, ← toList_bare, List.contains_iff_mem] at h
  exact h

example : pointee (bare "const SGPath&") = "SGPath" := by decide

end WasmBindings.Spelling
