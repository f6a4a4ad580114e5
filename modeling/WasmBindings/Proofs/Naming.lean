import Mathlib
import WasmBindings.Naming
import WasmBindings.Proofs.MethodGroup

namespace WasmBindings

namespace Text

theorem flatten_consHead (c : Char) (ps : List (List Char)) :
    (consHead c ps).flatten = c :: ps.flatten := by
  cases ps <;> rfl

theorem flatten_splitAt (sep : Char) (s : List Char) :
    (splitAt sep s).flatten = without [sep] s := by
  induction s with
  | nil => rfl
  | cons c r ih =>
    rw [splitAt]
    split
    · next h => simp [ih, without, h]
    · next h => simp [flatten_consHead, ih, without, h]

theorem mem_without {dropped s : List Char} {c : Char} :
    c ∈ without dropped s ↔ c ∈ s ∧ c ∉ dropped := by
  simp [without]

theorem mem_without_of_mem_splitAt {sep : Char} {s p : List Char} (hp : p ∈ splitAt sep s)
    {c : Char} (hc : c ∈ p) : c ∈ without [sep] s := by
  rw [← flatten_splitAt]
  exact List.mem_flatten.2 ⟨p, hp, hc⟩

def IsAscii (s : List Char) : Prop := ∀ c ∈ s, c.toNat < 128

theorem isAscii_append {s t : List Char} : IsAscii (s ++ t) ↔ IsAscii s ∧ IsAscii t := by
  simp [IsAscii, or_imp, forall_and]

theorem toNat_lt_of_isAlphanum {c : Char} (h : c.isAlphanum) : c.toNat < 128 := by
  have hbounds : (65 ≤ c.toNat ∧ c.toNat ≤ 90 ∨ 97 ≤ c.toNat ∧ c.toNat ≤ 122) ∨
      48 ≤ c.toNat ∧ c.toNat ≤ 57 := by
    simpa [Char.isAlphanum, Char.isAlpha, Char.isUpper, Char.isLower, Char.isDigit,
      UInt32.le_iff_toNat_le] using h
  omega

theorem not_isAlpha_of_isDigit {c : Char} (h : c.isDigit = true) : c.isAlpha = false := by
  have hdigit : 48 ≤ c.toNat ∧ c.toNat ≤ 57 := by
    simpa [Char.isDigit, UInt32.le_iff_toNat_le] using h
  rw [Bool.eq_false_iff]
  intro halpha
  have hletter : 65 ≤ c.toNat ∧ c.toNat ≤ 90 ∨ 97 ≤ c.toNat ∧ c.toNat ≤ 122 := by
    simpa [Char.isAlpha, Char.isUpper, Char.isLower, UInt32.le_iff_toNat_le] using halpha
  omega

theorem toNat_lt_of_toLower {c : Char} (h : c.toLower.toNat < 128) : c.toNat < 128 := by
  by_cases hc : c.isUpper
  · exact toNat_lt_of_isAlphanum (by simp [Char.isAlphanum, Char.isAlpha, hc])
  · rwa [Char.toLower_eq_of_not_isUpper hc] at h

theorem toNat_toLower_lt {c : Char} (h : c.toNat < 128) : c.toLower.toNat < 128 := by
  have hall : ∀ n < 128, (Char.ofNat n).toLower.toNat < 128 := by decide
  simpa using hall c.toNat h

namespace IsAscii

variable {s : List Char} (h : IsAscii s)
include h

theorem lower : IsAscii (lower s) := by
  rw [lower_of_ascii h]
  intro c hc
  obtain ⟨d, hd, rfl⟩ := List.mem_map.1 hc
  exact toNat_toLower_lt (h d hd)

theorem map_toLower_lower : (Text.lower s).map Char.toLower = s.map Char.toLower := by
  rw [lower_of_ascii h, List.map_map]
  exact List.map_congr_left fun c _ => Char.toLower_toLower_eq_toLower c

theorem isUpper_of_mem_lower {c : Char} (hc : c ∈ Text.lower s) : c.isUpper = false := by
  rw [lower_of_ascii h] at hc
  obtain ⟨d, -, rfl⟩ := List.mem_map.1 hc
  exact Char.isUpper_toLower_eq_false d

end IsAscii

theorem isAscii_of_map_toLower {s : List Char} (h : IsAscii (s.map Char.toLower)) : IsAscii s := by
  intro c hc
  exact toNat_lt_of_toLower (h c.toLower (List.mem_map_of_mem hc))

theorem eq_underscore_of_toLower {c : Char} (h : c.toLower = '_') : c = '_' := by
  have halpha : c.isAlpha = false := by
    rw [← Char.isAlpha_toLower_eq_isAlpha, h]
    decide
  have hupper : ¬ c.isUpper := by
    intro hc
    simp [Char.isAlpha, hc] at halpha
  rwa [Char.toLower_eq_of_not_isUpper hupper] at h

end Text

namespace Naming

open Text

theorem flatten_stretches (s : List Char) : (stretches s).flatMap (·.letters) = s := by
  induction s with
  | nil => rfl
  | cons c r ih =>
    rw [stretches]
    split
    · next st rest h =>
      rw [h] at ih
      split <;> simp [← ih]
    · next h =>
      rw [h] at ih
      simp [← ih]

namespace LetterClass

variable {c : Char}

theorem of_ne_other (h : c.isAlphanum) : of c ≠ .other := by
  rw [of]
  repeat' split
  all_goals simp_all [Char.isAlphanum, Char.isAlpha]

theorem of_eq_upper_iff : of c = .upper ↔ c.isUpper = true := by
  rw [of]
  repeat' split
  all_goals simp_all

theorem of_eq_lower_iff : of c = .lower ↔ c.isLower = true := by
  have hupper := @Char.not_isUpper_of_isLower c
  rw [of]
  repeat' split
  all_goals simp_all

theorem of_eq_digit_iff : of c = .digit ↔ c.isDigit = true := by
  have halpha := @not_isAlpha_of_isDigit c
  rw [of]
  repeat' split
  all_goals simp_all [Char.isAlpha]

end LetterClass

structure Stretch.Sound (st : Stretch) : Prop where
  nonempty : st.letters ≠ []
  of_eq : ∀ c ∈ st.letters, LetterClass.of c = st.letterClass

theorem sound_of_mem_stretches {s : List Char} {st : Stretch} (h : st ∈ stretches s) :
    st.Sound := by
  induction s generalizing st with
  | nil => cases h
  | cons c r ih =>
    have hfirst : (⟨.of c, [c]⟩ : Stretch).Sound := ⟨List.cons_ne_nil c [], by simp⟩
    rw [stretches] at h
    split at h
    · next first rest hr =>
      rw [hr] at ih
      split at h
      · next hclass =>
        rcases List.mem_cons.1 h with rfl | hst
        · have hlonger := (ih List.mem_cons_self).of_eq
          exact ⟨List.cons_ne_nil c _, List.forall_mem_cons.2 ⟨hclass.symm, hlonger⟩⟩
        · exact ih (List.mem_cons_of_mem first hst)
      · rcases List.mem_cons.1 h with rfl | hst
        · exact hfirst
        · exact ih hst
    · cases List.mem_singleton.1 h
      exact hfirst

theorem class_ne_other {s : List Char} (h : ∀ c ∈ s, c.isAlphanum) {st : Stretch}
    (hst : st ∈ stretches s) : st.letterClass ≠ .other := by
  have hsound := sound_of_mem_stretches hst
  obtain ⟨c, hc⟩ := List.exists_mem_of_ne_nil _ hsound.nonempty
  have hmem : c ∈ s := by
    rw [← flatten_stretches s]
    exact List.mem_flatMap.2 ⟨st, hst, hc⟩
  rw [← hsound.of_eq c hc]
  exact LetterClass.of_ne_other (h c hmem)

theorem flatten_wordsOf {ss : List Stretch} (h : ∀ st ∈ ss, st.letterClass ≠ .other) :
    (wordsOf ss).flatten = ss.flatMap (·.letters) := by
  fun_induction wordsOf ss with
  | case1 us ls rest hplural ih =>
    simp [ih fun st hst => h st (by simp [hst])]
  | case2 us ls rest hplural hlong ih =>
    have hcapitals : us.dropLast ++ us.drop (us.length - 1) = us := by
      rw [List.dropLast_eq_take, List.take_append_drop]
    simp [ih fun st hst => h st (by simp [hst]), ← List.append_assoc, hcapitals]
  | case3 us ls rest hplural hshort ih =>
    simp [ih fun st hst => h st (by simp [hst])]
  | case4 letters rest ih => exact absurd rfl (h _ List.mem_cons_self)
  | case5 st rest _ _ ih =>
    simp [ih fun st' hst => h st' (by simp [hst])]
  | case6 => rfl

structure Uniform (w : List Char) : Prop where
  nonempty : w ≠ []
  alpha_or_digit : (∀ c ∈ w, c.isAlpha = true) ∨ ∀ c ∈ w, c.isDigit = true

namespace Stretch.Sound

theorem isUpper {us : List Char} (h : (⟨.upper, us⟩ : Stretch).Sound) :
    ∀ c ∈ us, c.isUpper = true :=
  fun c hc => LetterClass.of_eq_upper_iff.1 (h.of_eq c hc)

theorem isLower {ls : List Char} (h : (⟨.lower, ls⟩ : Stretch).Sound) :
    ∀ c ∈ ls, c.isLower = true :=
  fun c hc => LetterClass.of_eq_lower_iff.1 (h.of_eq c hc)

theorem isDigit {ds : List Char} (h : (⟨.digit, ds⟩ : Stretch).Sound) :
    ∀ c ∈ ds, c.isDigit = true :=
  fun c hc => LetterClass.of_eq_digit_iff.1 (h.of_eq c hc)

theorem uniform {st : Stretch} (h : st.Sound) (hother : st.letterClass ≠ .other) :
    Uniform st.letters := by
  obtain ⟨letterClass, letters⟩ := st
  refine ⟨h.nonempty, ?_⟩
  cases letterClass with
  | upper => exact .inl fun c hc => by simp [Char.isAlpha, h.isUpper c hc]
  | lower => exact .inl fun c hc => by simp [Char.isAlpha, h.isLower c hc]
  | digit => exact .inr h.isDigit
  | other => exact absurd rfl hother

theorem uniform_append {us us' ls : List Char} (hus : (⟨.upper, us⟩ : Stretch).Sound)
    (hls : (⟨.lower, ls⟩ : Stretch).Sound) (hne : us' ≠ []) (hsub : us' ⊆ us) :
    Uniform (us' ++ ls) := by
  refine ⟨List.append_ne_nil_of_left_ne_nil hne ls, .inl (List.forall_mem_append.2 ⟨?_, ?_⟩)⟩
  · intro c hc
    simp [Char.isAlpha, hus.isUpper c (hsub hc)]
  · intro c hc
    simp [Char.isAlpha, hls.isLower c hc]

end Stretch.Sound

theorem drop_pred_ne_nil {us : List Char} (h : 2 ≤ us.length) : us.drop (us.length - 1) ≠ [] := by
  rw [Ne, List.drop_eq_nil_iff]
  omega

theorem dropLast_ne_nil {us : List Char} (h : 2 ≤ us.length) : us.dropLast ≠ [] := by
  rw [← List.length_pos_iff, List.length_dropLast]
  omega

theorem uniform_of_mem_wordsOf {ss : List Stretch} (h : ∀ st ∈ ss, st.Sound) {w : List Char}
    (hw : w ∈ wordsOf ss) : Uniform w := by
  fun_induction wordsOf ss with
  | case1 us ls rest hplural ih =>
    have hus : (⟨.upper, us⟩ : Stretch).Sound := h _ (by simp)
    have hls : (⟨.lower, ls⟩ : Stretch).Sound := h _ (by simp)
    rcases List.mem_cons.1 hw with rfl | hw
    · exact hus.uniform_append hls hus.nonempty (List.Subset.refl us)
    · exact ih (fun st hst => h st (by simp [hst])) hw
  | case2 us ls rest hplural hlong ih =>
    have hus : (⟨.upper, us⟩ : Stretch).Sound := h _ (by simp)
    have hls : (⟨.lower, ls⟩ : Stretch).Sound := h _ (by simp)
    rcases List.mem_cons.1 hw with rfl | hw
    · refine ⟨dropLast_ne_nil hlong, .inl fun c hc => ?_⟩
      simp [Char.isAlpha, hus.isUpper c (List.mem_of_mem_dropLast hc)]
    rcases List.mem_cons.1 hw with rfl | hw
    · exact hus.uniform_append hls (drop_pred_ne_nil hlong) (List.drop_subset _ us)
    · exact ih (fun st hst => h st (by simp [hst])) hw
  | case3 us ls rest hplural hshort ih =>
    have hus : (⟨.upper, us⟩ : Stretch).Sound := h _ (by simp)
    have hls : (⟨.lower, ls⟩ : Stretch).Sound := h _ (by simp)
    rcases List.mem_cons.1 hw with rfl | hw
    · exact hus.uniform_append hls hus.nonempty (List.Subset.refl us)
    · exact ih (fun st hst => h st (by simp [hst])) hw
  | case4 letters rest ih => exact ih (fun st hst => h st (by simp [hst])) hw
  | case5 st rest _ hother ih =>
    rcases List.mem_cons.1 hw with rfl | hw
    · refine (h st List.mem_cons_self).uniform ?_
      intro hclass
      exact hother st.letters (by rw [← hclass])
    · exact ih (fun st' hst => h st' (by simp [hst])) hw
  | case6 => cases hw

theorem flatten_partWords {part : List Char} (h : ∀ c ∈ part, c.isAlphanum) :
    (partWords part).flatten = part := by
  rw [partWords]
  split
  · simp
  · rw [flatten_wordsOf, flatten_stretches]
    exact fun st hst => class_ne_other h hst

theorem nil_notMem_partWords {part : List Char} (h : part ≠ []) : [] ∉ partWords part := by
  rw [partWords]
  split
  · simpa using h.symm
  · intro hnil
    exact (uniform_of_mem_wordsOf (fun st hst => sound_of_mem_stretches hst) hnil).nonempty rfl

def rawWords (name : List Char) : List (List Char) :=
  ((splitAt '_' name).filter fun p => !p.isEmpty).flatMap partWords

theorem flatten_rawWords {name : List Char} (h : ∀ c ∈ without ['_'] name, c.isAlphanum) :
    (rawWords name).flatten = without ['_'] name := by
  calc
    (rawWords name).flatten
      = ((splitAt '_' name).filter fun p => !p.isEmpty).flatMap fun p => (partWords p).flatten := by
        rw [rawWords, ← List.flatMap_id, List.flatMap_assoc]
        simp
    _ = ((splitAt '_' name).filter fun p => !p.isEmpty).flatMap id := by
        apply List.flatMap_congr
        intro p hp
        apply flatten_partWords
        intro c hc
        exact h c (mem_without_of_mem_splitAt (List.mem_filter.1 hp).1 hc)
    _ = without ['_'] name := by
        rw [List.flatMap_id, List.flatten_filter_not_isEmpty, flatten_splitAt]

theorem nil_notMem_rawWords (name : List Char) : [] ∉ rawWords name := by
  intro h
  obtain ⟨p, hp, hnil⟩ := List.mem_flatMap.1 h
  have hne : p ≠ [] := by simpa using (List.mem_filter.1 hp).2
  exact nil_notMem_partWords hne hnil

theorem isAscii_of_mem_rawWords {name w : List Char}
    (h : ∀ c ∈ without ['_'] name, c.isAlphanum) (hw : w ∈ rawWords name) : IsAscii w := by
  intro c hc
  have hmem : c ∈ (rawWords name).flatten := List.mem_flatten.2 ⟨w, hw, hc⟩
  rw [flatten_rawWords h] at hmem
  exact toNat_lt_of_isAlphanum (h c hmem)

def verbs : List (List Char) := ["set".toList, "get".toList]

theorem splitVerb_cases (first : List Char) (rest : List (List Char)) :
    (splitVerb (first :: rest) = lower first :: rest ∧
      ∀ verb ∈ verbs, isVerb verb (lower first) = false) ∨
    ∃ verb ∈ verbs, ∃ noun, noun ≠ [] ∧ verb ++ noun = lower first ∧
      splitVerb (first :: rest) = verb :: noun :: rest.map lower := by
  have hcut {verb : List Char} (hverb : verb.length = 3) (h : isVerb verb (lower first) = true) :
      (lower first).drop 3 ≠ [] ∧ verb ++ (lower first).drop 3 = lower first := by
    rw [isVerb, Bool.and_eq_true, List.isPrefixOf_iff_prefix, decide_eq_true_iff] at h
    refine ⟨by simpa using h.2, ?_⟩
    rw [← hverb]
    exact List.prefix_iff_eq_append.1 h.1
  simp only [splitVerb]
  split
  · next h =>
    obtain ⟨hne, heq⟩ := hcut rfl h
    exact .inr ⟨_, by simp [verbs], _, hne, heq, rfl⟩
  split
  · next h =>
    obtain ⟨hne, heq⟩ := hcut rfl h
    exact .inr ⟨_, by simp [verbs], _, hne, heq, rfl⟩
  · next hset hget =>
    refine .inl ⟨rfl, ?_⟩
    rw [verbs, List.forall_mem_cons, List.forall_mem_singleton]
    exact ⟨Bool.eq_false_iff.2 hset, Bool.eq_false_iff.2 hget⟩

theorem map_toLower_flatMap {f : List Char → List Char} {ws : List (List Char)}
    (h : ∀ w ∈ ws, (f w).map Char.toLower = w.map Char.toLower) :
    (ws.flatMap f).map Char.toLower = ws.flatten.map Char.toLower := by
  rw [List.map_flatMap, List.map_flatten, List.flatMap_def]
  congr 1
  exact List.map_congr_left h

theorem isAscii_of_mem_splitVerb {ws : List (List Char)} (h : ∀ w ∈ ws, IsAscii w) :
    ∀ w ∈ splitVerb ws, IsAscii w := by
  cases ws with
  | nil => exact h
  | cons first rest =>
    obtain ⟨hfirst, hrest⟩ := List.forall_mem_cons.1 h
    rcases splitVerb_cases first rest with ⟨hs, -⟩ | ⟨verb, -, noun, -, hcut, hs⟩
    · rw [hs]
      exact List.forall_mem_cons.2 ⟨hfirst.lower, hrest⟩
    · obtain ⟨hverb, hnoun⟩ := isAscii_append.1 (hcut ▸ hfirst.lower)
      rw [hs, List.forall_mem_cons, List.forall_mem_cons, List.forall_mem_map]
      exact ⟨hverb, hnoun, fun w hw => (hrest w hw).lower⟩

theorem map_toLower_splitVerb {ws : List (List Char)} (h : ∀ w ∈ ws, IsAscii w) :
    (splitVerb ws).flatten.map Char.toLower = ws.flatten.map Char.toLower := by
  cases ws with
  | nil => rfl
  | cons first rest =>
    obtain ⟨hfirst, hrest⟩ := List.forall_mem_cons.1 h
    have hsmall := map_toLower_flatMap fun w hw => (hrest w hw).map_toLower_lower
    rcases splitVerb_cases first rest with ⟨hs, -⟩ | ⟨verb, -, noun, -, hcut, hs⟩
    · rw [hs, List.flatten_cons, List.flatten_cons, List.map_append, List.map_append,
        hfirst.map_toLower_lower]
    · rw [hs, List.flatten_cons, List.flatten_cons, List.flatten_cons, ← List.append_assoc, hcut,
        List.map_append, List.map_append, hfirst.map_toLower_lower, ← List.flatMap_def, hsmall]

theorem splitVerb_first {first : List Char} (hfirst : IsAscii first) (hne : first ≠ [])
    (rest : List (List Char)) :
    ∃ c r more, splitVerb (first :: rest) = (c :: r) :: more ∧ c.isUpper = false := by
  rcases splitVerb_cases first rest with ⟨hs, -⟩ | ⟨verb, hverb, noun, -, -, hs⟩
  · cases hsmall : lower first with
    | nil =>
      rw [lower_of_ascii hfirst, List.map_eq_nil_iff] at hsmall
      exact absurd hsmall hne
    | cons c r =>
      rw [hsmall] at hs
      exact ⟨c, r, rest, hs, hfirst.isUpper_of_mem_lower (by simp [hsmall])⟩
  · simp only [verbs, List.mem_cons, List.not_mem_nil, or_false] at hverb
    rcases hverb with rfl | rfl
    · exact ⟨'s', _, _, hs, by decide⟩
    · exact ⟨'g', _, _, hs, by decide⟩

theorem map_toLower_capitalize {w : List Char} (h : IsAscii w) :
    (capitalize w).map Char.toLower = w.map Char.toLower := by
  cases w with
  | nil => rfl
  | cons c r =>
    have hc : c.toNat < 128 := h c List.mem_cons_self
    simp [capitalize, upperChar, hc, Char.toLower_toUpper_eq_toLower]

theorem wordsChars_eq (name : List Char) : wordsChars name = splitVerb (rawWords name) := rfl

section Identifier

variable {name : List Char} (h : ∀ c ∈ without ['_'] name, c.isAlphanum)
include h

theorem wordsChars_cons (hne : without ['_'] name ≠ []) :
    ∃ c r more, wordsChars name = (c :: r) :: more ∧ c.isUpper = false := by
  rw [wordsChars_eq]
  cases hwords : rawWords name with
  | nil => exact absurd (by rw [← flatten_rawWords h, hwords, List.flatten_nil]) hne
  | cons first rest =>
    have hmem : first ∈ rawWords name := by simp [hwords]
    exact splitVerb_first (isAscii_of_mem_rawWords h hmem)
      (fun hnil => nil_notMem_rawWords name (hnil ▸ hmem)) rest

theorem map_toLower_wordsChars :
    (wordsChars name).flatten.map Char.toLower = (without ['_'] name).map Char.toLower := by
  rw [wordsChars_eq, map_toLower_splitVerb fun w hw => isAscii_of_mem_rawWords h hw,
    flatten_rawWords h]

theorem map_toLower_camelChars (hne : without ['_'] name ≠ []) :
    (camelChars name).map Char.toLower = (without ['_'] name).map Char.toLower := by
  obtain ⟨c, r, more, hwords, -⟩ := wordsChars_cons h hne
  have hascii : ∀ w ∈ wordsChars name, IsAscii w :=
    isAscii_of_mem_splitVerb fun w hw => isAscii_of_mem_rawWords h hw
  have hcapital := map_toLower_flatMap fun w hw =>
    map_toLower_capitalize (hascii w (by rw [hwords]; exact List.mem_cons_of_mem _ hw))
  rw [← map_toLower_wordsChars h, camelChars, hwords]
  simp only [List.map_append, hcapital, List.flatten_cons]

theorem isAscii_camelChars (hne : without ['_'] name ≠ []) : IsAscii (camelChars name) := by
  apply isAscii_of_map_toLower
  rw [map_toLower_camelChars h hne]
  intro c hc
  obtain ⟨d, hd, rfl⟩ := List.mem_map.1 hc
  exact toNat_toLower_lt (toNat_lt_of_isAlphanum (h d hd))

theorem underscore_not_mem_camelChars (hne : without ['_'] name ≠ []) :
    '_' ∉ camelChars name := by
  intro hmem
  have hsmall : '_'.toLower ∈ (camelChars name).map Char.toLower := List.mem_map_of_mem hmem
  rw [map_toLower_camelChars h hne] at hsmall
  obtain ⟨c, hc, hlower⟩ := List.mem_map.1 hsmall
  have hunderscore : c = '_' := eq_underscore_of_toLower hlower
  simp [mem_without, hunderscore] at hc

theorem camelChars_of_underscores (hnil : without ['_'] name = []) : camelChars name = name := by
  have hwords : rawWords name = [] := by
    rw [← flatten_rawWords h, List.flatten_eq_nil_iff] at hnil
    by_contra hne
    obtain ⟨w, hw⟩ := List.exists_mem_of_ne_nil _ hne
    exact nil_notMem_rawWords name (hnil w hw ▸ hw)
  rw [camelChars, wordsChars_eq, hwords]
  rfl

end Identifier

def folded (name : String) : List Char := lower (without ['_'] name.toList)

section

variable {name : String} (h : Piece.isIdentRun name.toList = true)
include h

theorem isAlphanum_of_isIdentRun : ∀ c ∈ without ['_'] name.toList, c.isAlphanum := by
  intro c hc
  obtain ⟨hmem, hne⟩ := mem_without.1 hc
  have hident : isIdentChar c = true := by
    cases hname : name.toList with
    | nil => simp [hname] at hmem
    | cons d r =>
      rw [hname, Piece.isIdentRun, Bool.and_eq_true, List.all_eq_true] at h
      rw [hname] at hmem
      rcases List.mem_cons.1 hmem with rfl | hr
      · exact isIdentChar_of_isIdentStart h.1
      · exact h.2 c hr
  simpa [isIdentChar, List.mem_singleton.not.1 hne] using hident

theorem lower_camelCase (hne : without ['_'] name.toList ≠ []) :
    lower (camelCase name).toList = folded name := by
  have halnum := isAlphanum_of_isIdentRun h
  have hascii : IsAscii (without ['_'] name.toList) := fun c hc =>
    toNat_lt_of_isAlphanum (halnum c hc)
  rw [camelCase, String.toList_ofList, folded, lower_of_ascii (isAscii_camelChars halnum hne),
    lower_of_ascii hascii, map_toLower_camelChars halnum hne]

theorem folded_camelCase : folded (camelCase name) = folded name := by
  have halnum := isAlphanum_of_isIdentRun h
  by_cases hnil : without ['_'] name.toList = []
  · rw [camelCase, camelChars_of_underscores halnum hnil, String.ofList_toList]
  · have hkeeps : without ['_'] (camelCase name).toList = (camelCase name).toList := by
      rw [without, List.filter_eq_self]
      intro c hc
      have hne : c ≠ '_' := by
        rintro rfl
        exact underscore_not_mem_camelChars halnum hnil (by simpa [camelCase] using hc)
      simp [hne]
    rw [folded, hkeeps, lower_camelCase h hnil]

end

/-- An API name is the identifier without its underscores, in another case and not with a capital
in front.  So the two names that collide are equal up to case and underscores. -/
theorem camelCase_folds :
    (∀ name : String, Piece.isIdentRun name.toList = true → (∃ c ∈ name.toList, c ≠ '_') →
      lower (camelCase name).toList = folded name ∧ '_' ∉ (camelCase name).toList ∧
      ∃ c, (camelCase name).toList.head? = some c ∧ c.isUpper = false) ∧
    ∀ (c : Converter) (data : Metadata) (ignored : List String) (methods : List Method)
      (fault : Fault), MethodGroup.build c data ignored methods = .error fault →
      ∃ m ∈ MethodGroup.kept ignored methods, ∃ m' ∈ MethodGroup.kept ignored methods,
        fault = MethodGroup.collision m.name m'.name (camelCase m.name) ∧ m.name ≠ m'.name ∧
        (Piece.isIdentRun m.name.toList = true → Piece.isIdentRun m'.name.toList = true →
          folded m.name = folded m'.name) := by
  refine ⟨?_, ?_⟩
  · rintro name h ⟨d, hd, hne⟩
    have hsome : without ['_'] name.toList ≠ [] :=
      List.ne_nil_of_mem (mem_without.2 ⟨hd, List.mem_singleton.not.2 hne⟩)
    have halnum := isAlphanum_of_isIdentRun h
    obtain ⟨c, r, more, hwords, hc⟩ := wordsChars_cons halnum hsome
    refine ⟨lower_camelCase h hsome, ?_, c, ?_, hc⟩
    · simpa [camelCase] using underscore_not_mem_camelChars halnum hsome
    · simp [camelCase, camelChars, hwords]
  · intro c data ignored methods fault hbuild
    have hcollide : MethodGroup.Colliding (MethodGroup.kept ignored methods) := by
      by_contra hapart
      rw [MethodGroup.build_ok c data hapart] at hbuild
      cases hbuild
    obtain ⟨m, hm, m', hm', hne, hcamel, herror⟩ := MethodGroup.build_collision c data hcollide
    rw [hbuild] at herror
    refine ⟨m, hm, m', hm', Except.error.inj herror, hne, ?_⟩
    intro hident hident'
    rw [← folded_camelCase hident, hcamel, folded_camelCase hident']

def runNamed (name : String) : Method := ⟨name, "bool", [], .empty⟩

theorem camelCase_folds_runIC :
    (Piece.isIdentRun "Set_XMLFile_IDs".toList = true ∧
      lower (camelCase "Set_XMLFile_IDs").toList = folded "Set_XMLFile_IDs" ∧
      '_' ∉ (camelCase "Set_XMLFile_IDs").toList) ∧
    ∃ fault, MethodGroup.build ⟨"Sim", "Executive", [], [], [], []⟩ ⟨[], [], [], [], [], []⟩ []
        [runNamed "RunIC", runNamed "Run_IC"] = .error fault ∧
      folded "RunIC" = folded "Run_IC" := by
  have hident : Piece.isIdentRun "Set_XMLFile_IDs".toList = true := by decide
  obtain ⟨hlower, hno, -⟩ := camelCase_folds.1 "Set_XMLFile_IDs" hident ⟨'S', by simp, by simp⟩
  have hcollide : MethodGroup.Colliding
      (MethodGroup.kept [] [runNamed "RunIC", runNamed "Run_IC"]) :=
    ⟨runNamed "RunIC", by simp [MethodGroup.kept], runNamed "Run_IC", by simp [MethodGroup.kept],
      by decide, by decide +kernel⟩
  obtain ⟨first, second, herror⟩ := MethodGroup.build_error ⟨"Sim", "Executive", [], [], [], []⟩
    ⟨[], [], [], [], [], []⟩ hcollide
  obtain ⟨m, hm, m', hm', -, hne, hfold⟩ := camelCase_folds.2 _ _ _ _ _ herror
  refine ⟨⟨hident, hlower, hno⟩, _, herror, ?_⟩
  simp only [MethodGroup.kept, List.not_mem_nil, not_false_eq_true, decide_true,
    List.filter_true, List.mem_cons, or_false] at hm hm'
  rcases hm with rfl | rfl <;> rcases hm' with rfl | rfl
  · exact absurd rfl hne
  · exact hfold (by decide) (by decide)
  · exact (hfold (by decide) (by decide)).symm
  · exact absurd rfl hne

end Naming

end WasmBindings
