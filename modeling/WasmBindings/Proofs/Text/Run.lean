import WasmBindings.Proofs.Text.Blank
import WasmBindings.Text.Run

namespace WasmBindings.Text

theorem isWord_of_isBlank {c : Char} (h : isBlank c = true) : isWord c = false := by
  have hblanks : ∀ n ∈ [9, 10, 11, 12, 13, 28, 29, 30, 31, 32, 0x85, 0xA0, 0x1680, 0x2000, 0x2001,
      0x2002, 0x2003, 0x2004, 0x2005, 0x2006, 0x2007, 0x2008, 0x2009, 0x200A, 0x2028, 0x2029,
      0x202F, 0x205F, 0x3000], isWord (Char.ofNat n) = false := by decide +kernel
  rw [← Char.ofNat_toNat c]
  apply hblanks
  simp only [isBlank, Bool.or_eq_true, Bool.and_eq_true, decide_eq_true_eq, beq_iff_eq] at h
  simp only [List.mem_cons, List.not_mem_nil, or_false]
  omega

theorem isBlank_of_isWord {c : Char} (h : isWord c = true) : isBlank c = false := by
  by_contra hblank
  rw [isWord_of_isBlank (by simpa using hblank)] at h
  cases h

theorem runs_cons_of_not_word {c : Char} (hc : isWord c = false) (t : List Char) :
    runs (c :: t) = [c] :: runs t := by
  rw [runs]
  split
  · next h => simp [hc, h]
  · rfl

theorem runs_append_cons {c : Char} (hc : isWord c = false) (s t : List Char) :
    runs (s ++ c :: t) = runs s ++ [c] :: runs t := by
  induction s with
  | nil => exact runs_cons_of_not_word hc t
  | cons d s ih =>
    rw [List.cons_append, runs, ih, runs]
    cases hs : runs s with
    | nil => simp [hc]
    | cons w ws =>
      cases w with
      | nil => simp
      | cons e w =>
        simp only [List.cons_append]
        split <;> simp

theorem runs_of_word {w : List Char} (hne : w ≠ []) (hw : ∀ c ∈ w, isWord c = true) :
    runs w = [w] := by
  induction w with
  | nil => exact absurd rfl hne
  | cons c r ih =>
    cases r with
    | nil => rfl
    | cons d r =>
      have hr := ih (List.cons_ne_nil d r) fun e he => hw e (List.mem_cons_of_mem c he)
      have hc := hw c List.mem_cons_self
      have hd := hw d (List.mem_cons_of_mem c List.mem_cons_self)
      rw [runs, hr]
      simp [hc, hd]

def StartsApart (s : List Char) : Prop := ∀ c ∈ s.head?, isWord c = false

@[simp] theorem startsApart_nil : StartsApart [] := by
  intro c hc
  cases hc

theorem startsApart_cons {c : Char} {s : List Char} :
    StartsApart (c :: s) ↔ isWord c = false := by
  simp [StartsApart]

theorem runs_word_append {w s : List Char} (hne : w ≠ []) (hw : ∀ c ∈ w, isWord c = true)
    (hs : StartsApart s) : runs (w ++ s) = w :: runs s := by
  cases s with
  | nil => rw [List.append_nil, runs_of_word hne hw, runs_nil]
  | cons c s =>
    have hc := startsApart_cons.1 hs
    rw [runs_append_cons hc, runs_of_word hne hw, runs_cons_of_not_word hc]
    rfl

/-- Induction over a text from its end, one character that is no word character or one whole word
at a time. -/
@[elab_as_elim]
theorem runs_induction {motive : List Char → Prop} (nil : motive [])
    (single : ∀ c s, isWord c = false → motive s → motive (c :: s))
    (word : ∀ w s, w ≠ [] → (∀ c ∈ w, isWord c = true) → StartsApart s → motive s →
      motive (w ++ s)) (s : List Char) : motive s := by
  -- A word character belongs to a word that may have begun before it.
  suffices h : motive s ∧ ∀ w, w ≠ [] → (∀ c ∈ w, isWord c = true) → motive (w ++ s) from h.1
  induction s with
  | nil => exact ⟨nil, fun w hne hw => word w [] hne hw startsApart_nil nil⟩
  | cons c s ih =>
    by_cases hc : isWord c = true
    · refine ⟨ih.2 [c] (List.cons_ne_nil c []) (by simpa using hc), fun w _ hw => ?_⟩
      have hlonger := ih.2 (w ++ [c]) (by simp) fun d hd =>
        (List.mem_append.1 hd).elim (hw d) fun hd => List.mem_singleton.1 hd ▸ hc
      rwa [List.append_assoc, List.singleton_append] at hlonger
    · have hc' : isWord c = false := by simpa using hc
      have hcons := single c s hc' ih.1
      exact ⟨hcons, fun w hne hw => word w (c :: s) hne hw (startsApart_cons.2 hc') hcons⟩

theorem removeWords_append_cons {words : List (List Char)} {c : Char} (hc : isWord c = false)
    (hwords : [c] ∉ words) (s t : List Char) :
    removeWords words (s ++ c :: t) = removeWords words s ++ c :: removeWords words t := by
  simp [removeWords, runs_append_cons hc, hwords]

theorem removeWords_word_append {words : List (List Char)} {w s : List Char} (hne : w ≠ [])
    (hw : ∀ c ∈ w, isWord c = true) (hs : StartsApart s) :
    removeWords words (w ++ s) = (if w ∈ words then [] else w) ++ removeWords words s := by
  rw [removeWords, runs_word_append hne hw hs, List.filter_cons, removeWords]
  split
  · next h => simp_all
  · next h => simp_all

theorem isBlankRun_of_word {w : List Char} (hne : w ≠ []) (hw : ∀ c ∈ w, isWord c = true) :
    isBlankRun w = false := by
  obtain ⟨c, hc⟩ := List.exists_mem_of_ne_nil w hne
  exact List.all_eq_false.2 ⟨c, hc, by simp [isBlank_of_isWord (hw c hc)]⟩

theorem isBlankRun_singleton (c : Char) : isBlankRun [c] = isBlank c := by
  simp [isBlankRun]

theorem dropTagsFrom_append_cons {tags : List (List Char)} {w : List Char} (hw : w ∉ tags)
    (hblank : isBlankRun w = false) (skipping : Bool) (us vs : List (List Char)) :
    dropTagsFrom tags skipping (us ++ w :: vs) =
      dropTagsFrom tags skipping us ++ (w ++ dropTagsFrom tags false vs) := by
  induction us generalizing skipping with
  | nil => simp [dropTagsFrom, hw, hblank]
  | cons u us ih =>
    have hnext : blankNext (us ++ w :: vs) = blankNext us := by
      cases us with
      | nil => simp [blankNext, hblank]
      | cons v us => rfl
    rw [List.cons_append, dropTagsFrom, hnext, ih, ih, dropTagsFrom]
    split
    · rfl
    · split
      · rfl
      · rw [List.append_assoc]

theorem dropTags_append_cons {tags : List (List Char)} {c : Char} (hc : isWord c = false)
    (htags : [c] ∉ tags) (hblank : isBlank c = false) (s t : List Char) :
    dropTags tags (s ++ c :: t) = dropTags tags s ++ c :: dropTags tags t := by
  rw [dropTags, runs_append_cons hc,
    dropTagsFrom_append_cons htags (by rw [isBlankRun_singleton, hblank])]
  rfl

theorem dropTags_word_append {tags : List (List Char)} {w s : List Char} (hne : w ≠ [])
    (hw : ∀ c ∈ w, isWord c = true) (htags : w ∉ tags) (hs : StartsApart s) :
    dropTags tags (w ++ s) = w ++ dropTags tags s := by
  rw [dropTags, runs_word_append hne hw hs]
  exact dropTagsFrom_append_cons htags (isBlankRun_of_word hne hw) false [] (runs s)

theorem mem_flatten_of_mem_dropTagsFrom {tags : List (List Char)} {skipping : Bool}
    {ws : List (List Char)} {c : Char} (h : c ∈ dropTagsFrom tags skipping ws) :
    c ∈ ws.flatten := by
  induction ws generalizing skipping with
  | nil => cases h
  | cons w ws ih =>
    rw [dropTagsFrom] at h
    rw [List.flatten_cons, List.mem_append]
    split at h
    · exact .inr (ih h)
    · split at h
      · exact .inr (ih h)
      · exact (List.mem_append.1 h).imp_right ih

theorem mem_of_mem_dropTags {tags : List (List Char)} {s : List Char} {c : Char}
    (h : c ∈ dropTags tags s) : c ∈ s := by
  rw [← flatten_runs s]
  exact mem_flatten_of_mem_dropTagsFrom h

theorem spaceAfterFrom_of_not_mem {word : List Char} {ws : List (List Char)} (h : word ∉ ws) :
    spaceAfterFrom word false ws = ws.flatten := by
  induction ws with
  | nil => rfl
  | cons w ws ih =>
    simp only [List.mem_cons, not_or] at h
    simp [spaceAfterFrom, Ne.symm h.1, ih h.2]

def spacedFrom (word : List Char) (after : Bool) (s : List Char) : List Char :=
  spaceAfterFrom word after (runs s)

section Spaced

variable {word : List Char} (hword : ∀ c ∈ word, isWord c = true)

@[simp] theorem spacedFrom_nil (after : Bool) : spacedFrom word after [] = [] := rfl

theorem spacedFrom_word_append {w s : List Char} (hne : w ≠ []) (hw : ∀ c ∈ w, isWord c = true)
    (hs : StartsApart s) (after : Bool) : spacedFrom word after (w ++ s) =
      w ++ (if w = word then ' ' :: spacedFrom word true s else spacedFrom word false s) := by
  rw [spacedFrom, runs_word_append hne hw hs, spaceAfterFrom, isBlankRun_of_word hne hw]
  by_cases h : w = word <;> simp [h, spacedFrom]

theorem spacedFrom_true_of_blank {b : Char} (hb : isBlank b = true) (s : List Char) :
    spacedFrom word true (b :: s) = spacedFrom word true s := by
  rw [spacedFrom, runs_cons_of_not_word (isWord_of_isBlank hb), spaceAfterFrom,
    isBlankRun_singleton, hb]
  rfl

include hword

theorem spacedFrom_cons {c : Char} (hc : isWord c = false) {after : Bool}
    (h : (after && isBlank c) = false) (s : List Char) :
    spacedFrom word after (c :: s) = c :: spacedFrom word false s := by
  have hne : [c] ≠ word := by
    rintro rfl
    rw [hword c List.mem_cons_self] at hc
    cases hc
  simp [spacedFrom, runs_cons_of_not_word hc, spaceAfterFrom, isBlankRun_singleton, h, hne]

theorem head?_spacedFrom_false (s : List Char) : (spacedFrom word false s).head? = s.head? := by
  induction s using runs_induction with
  | nil => rfl
  | single c s hc _ => rw [spacedFrom_cons hword hc rfl, List.head?_cons, List.head?_cons]
  | word w s hne hw hs _ =>
    obtain ⟨c, r, rfl⟩ := List.exists_cons_of_ne_nil hne
    rw [spacedFrom_word_append hne hw hs]
    rfl

theorem head?_spacedFrom_true {s : List Char} {c : Char}
    (h : (spacedFrom word true s).head? = some c) : isBlank c = false := by
  induction s using runs_induction with
  | nil => cases h
  | single d s hd ih =>
    by_cases hblank : isBlank d = true
    · rw [spacedFrom_true_of_blank hblank] at h
      exact ih h
    · have hblank' : isBlank d = false := by simpa using hblank
      rw [spacedFrom_cons hword hd (by rw [hblank', Bool.and_false])] at h
      cases h
      exact hblank'
  | word w s hne hw hs _ =>
    obtain ⟨d, r, rfl⟩ := List.exists_cons_of_ne_nil hne
    rw [spacedFrom_word_append hne hw hs] at h
    cases h
    exact isBlank_of_isWord (hw _ List.mem_cons_self)

end Spaced

theorem spaceAfterFrom_concat_blank {b : Char} (hb : isBlank b = true) {word : List Char}
    (hword : [b] ≠ word) (after : Bool) (ws : List (List Char)) :
    spaceAfterFrom word after (ws ++ [[b]]) = spaceAfterFrom word after ws ∨
      spaceAfterFrom word after (ws ++ [[b]]) = spaceAfterFrom word after ws ++ [b] := by
  induction ws generalizing after with
  | nil => cases after <;> simp [spaceAfterFrom, isBlankRun_singleton, hb, hword]
  | cons w ws ih =>
    rw [List.cons_append, spaceAfterFrom, spaceAfterFrom]
    split
    · exact ih true
    · split
      · rcases ih true with h | h
        · exact .inl (by rw [h])
        · exact .inr (by simp [h])
      · rcases ih false with h | h
        · exact .inl (by rw [h])
        · exact .inr (by simp [h])

theorem spaceAfterFrom_concat {c : Char} (hc : isBlank c = false) {word : List Char}
    (hword : [c] ≠ word) (after : Bool) (ws : List (List Char)) :
    spaceAfterFrom word after (ws ++ [[c]]) = spaceAfterFrom word after ws ++ [c] := by
  induction ws generalizing after with
  | nil => simp [spaceAfterFrom, isBlankRun_singleton, hc, hword]
  | cons w ws ih =>
    rw [List.cons_append, spaceAfterFrom, spaceAfterFrom]
    split
    · exact ih true
    · split
      · simp [ih]
      · simp [ih]

theorem withoutBlanks_spaceAfterFrom (word : List Char) (after : Bool) (ws : List (List Char)) :
    withoutBlanks (spaceAfterFrom word after ws) = withoutBlanks ws.flatten := by
  induction ws generalizing after with
  | nil => rfl
  | cons w ws ih =>
    rw [spaceAfterFrom, List.flatten_cons, withoutBlanks_append]
    split
    · next h =>
      have hblank : withoutBlanks w = [] := by
        simp only [Bool.and_eq_true, isBlankRun, List.all_eq_true] at h
        simpa [withoutBlanks] using h.2
      rw [ih, hblank, List.nil_append]
    · split
      · rw [withoutBlanks_append, withoutBlanks, withoutBlanks,
          List.filter_cons_of_neg (by simp), ← withoutBlanks, ← withoutBlanks, ih]
      · rw [withoutBlanks_append, ih]

theorem dropLeadingTag_of_not_blank {s : List Char} (h : ∀ c ∈ s, isBlank c = false)
    (tag : List Char) : dropLeadingTag tag s = s := by
  rw [dropLeadingTag]
  split
  · split
    · next c r hr =>
      have hc : c ∈ s := List.drop_subset tag.length s (hr ▸ List.mem_cons_self)
      rw [h c hc]
      rfl
    · rfl
  · rfl

end WasmBindings.Text
