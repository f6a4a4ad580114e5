import WasmBindings.Proofs.Cpp.Scope

namespace WasmBindings.Text

theorem mem_of_mem_removeWords {words : List (List Char)} {s : List Char} {c : Char}
    (h : c ∈ removeWords words s) : c ∈ s := by
  obtain ⟨w, hw, hc⟩ := List.mem_flatten.1 h
  rw [← flatten_runs s]
  exact List.mem_flatten.2 ⟨w, (List.mem_filter.1 hw).1, hc⟩

theorem collapse_of_not_blank {s : List Char} (h : ∀ c ∈ s, isBlank c = false) :
    collapse s = s := by
  have hcut := collapse_append_of_not_blank h []
  rwa [List.append_nil, show collapse [] = [] from rfl, List.append_nil] at hcut

theorem trimEnd_append_of_not_blank {s : List Char} (hne : s ≠ [])
    (h : ∀ c ∈ s, isBlank c = false) (lead : List Char) : trimEnd (lead ++ s) = lead ++ s := by
  have hlast : (lead ++ s).getLast? = some (s.getLast hne) := by
    rw [List.getLast?_append, List.getLast?_eq_some_getLast hne, Option.some_or]
  exact trimEnd_of_getLast? hlast (h _ (List.getLast_mem hne))

theorem dropTagsFrom_of_not_blank {tags ws : List (List Char)}
    (h : ∀ w ∈ ws, isBlankRun w = false) : dropTagsFrom tags false ws = ws.flatten := by
  induction ws with
  | nil => rfl
  | cons w ws ih =>
    have hnext : blankNext ws = false := by
      cases ws with
      | nil => rfl
      | cons v ws => exact h v (List.mem_cons_of_mem w List.mem_cons_self)
    rw [dropTagsFrom, hnext, Bool.and_false, Bool.false_and, if_neg Bool.false_ne_true,
      if_neg Bool.false_ne_true, ih fun v hv => h v (List.mem_cons_of_mem w hv), List.flatten_cons]

theorem isBlankRun_of_mem_runs {s w : List Char} (h : ∀ c ∈ s, isBlank c = false)
    (hw : w ∈ runs s) : isBlankRun w = false := by
  obtain ⟨c, hc⟩ := List.exists_mem_of_ne_nil w (ne_nil_of_mem_runs hw)
  have hs : c ∈ s := by
    rw [← flatten_runs s]
    exact List.mem_flatten.2 ⟨w, hw, hc⟩
  exact List.all_eq_false.2 ⟨c, hc, by simp [h c hs]⟩

theorem dropTags_of_not_blank {s : List Char} (h : ∀ c ∈ s, isBlank c = false)
    (tags : List (List Char)) : dropTags tags s = s := by
  rw [dropTags, dropTagsFrom_of_not_blank fun w hw => isBlankRun_of_mem_runs h hw, flatten_runs]

end WasmBindings.Text

namespace WasmBindings.Spelling

open Text

/-- The spelling with qualifiers and tags before it and marks after it. -/
def Adorns (name type : List Char) : Prop :=
  ∃ lead trail, Lead (enumWord :: qualifierWords) lead ∧ (∀ c ∈ trail, c ∈ marks) ∧
    type = lead ++ (name ++ trail)

section Compact

variable {s : List Char} (hs : ∀ c ∈ s, isBlank c = false)

include hs

theorem keyChars_of_not_blank : keyChars s = solid (removeWords qualifierWords s) := by
  have hleft : ∀ c ∈ removeWords qualifierWords s, isBlank c = false :=
    fun c hc => hs c (mem_of_mem_removeWords hc)
  have htrim : trimEnd (removeWords qualifierWords s) = removeWords qualifierWords s := by
    by_cases hne : removeWords qualifierWords s = []
    · rw [hne, trimEnd_nil]
    · exact trimEnd_append_of_not_blank hne hleft []
  rw [keyChars, collapse_of_not_blank hleft, htrim, dropTags_of_not_blank hleft]

theorem keyChars_lead_append {lead : List Char} (hlead : Lead (enumWord :: qualifierWords) lead)
    (hkey : keyChars s ≠ []) : keyChars (lead ++ s) = keyChars s := by
  obtain ⟨lead', hlead', heq⟩ := hlead.exists_removeWords
  have hleft : ∀ c ∈ removeWords qualifierWords s, isBlank c = false :=
    fun c hc => hs c (mem_of_mem_removeWords hc)
  have hne : removeWords qualifierWords s ≠ [] := by
    intro hnil
    rw [keyChars_of_not_blank hs, hnil] at hkey
    exact hkey rfl
  obtain ⟨w, ws, hruns⟩ : ∃ w ws, runs (removeWords qualifierWords s) = w :: ws := by
    apply List.exists_cons_of_ne_nil
    intro hnil
    rw [← flatten_runs (removeWords qualifierWords s), hnil] at hne
    exact hne rfl
  have hcollapse : collapse (lead' ++ removeWords qualifierWords s) =
      collapse lead' ++ removeWords qualifierWords s := by
    obtain ⟨c, r, hcons⟩ := List.exists_cons_of_ne_nil hne
    rw [hcons] at hleft ⊢
    rw [collapse_append_cons (hleft c List.mem_cons_self),
      collapse_of_not_blank fun d hd => hleft d (List.mem_cons_of_mem c hd)]
  have htags := hlead'.collapse.solid_dropTagsFrom hruns
    (isBlankRun_of_mem_runs hleft (hruns ▸ List.mem_cons_self)) false
  rw [keyChars, heq, hcollapse, trimEnd_append_of_not_blank hne hleft, dropTags, htags,
    dropTags_of_not_blank hleft, keyChars_of_not_blank hs]

theorem not_blank_append_marks {trail : List Char} (htrail : ∀ c ∈ trail, c ∈ marks) :
    ∀ c ∈ s ++ trail, isBlank c = false := by
  have hmarks : ∀ c ∈ marks, isBlank c = false := by
    rw [marks, List.forall_mem_cons, List.forall_mem_singleton]
    decide
  intro c hc
  rcases List.mem_append.1 hc with hc | hc
  · exact hs c hc
  · exact hmarks c (htrail c hc)

theorem keyChars_append_marks {trail : List Char} (htrail : ∀ c ∈ trail, c ∈ marks) :
    keyChars (s ++ trail) = keyChars s := by
  have hgap : ∀ c ∈ trail, isGap c = true := by
    intro c hc
    rw [isGap, List.contains_iff_mem.2 (htrail c hc), Bool.or_true]
  rw [keyChars_of_not_blank (not_blank_append_marks hs htrail), keyChars_of_not_blank hs]
  cases trail with
  | nil => rw [List.append_nil]
  | cons c r =>
    rw [removeWords_append_cons (not_isWord_of_isGap (hgap c List.mem_cons_self))
      (singleton_not_mem_qualifierWords c), solid_append,
      solid_of_gaps (s := c :: removeWords qualifierWords r), List.append_nil]
    intro d hd
    rcases List.mem_cons.1 hd with rfl | hd
    · exact hgap d List.mem_cons_self
    · exact hgap d (List.mem_cons_of_mem c (mem_of_mem_removeWords hd))

theorem Adorns.keyChars {type : List Char} (h : Adorns s type) (hkey : keyChars s ≠ []) :
    keyChars type = keyChars s := by
  obtain ⟨lead, trail, hlead, htrail, rfl⟩ := h
  have hmarks := keyChars_append_marks hs htrail
  rw [keyChars_lead_append (not_blank_append_marks hs htrail) hlead (hmarks ▸ hkey), hmarks]

end Compact

end WasmBindings.Spelling
