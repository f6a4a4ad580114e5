import WasmBindings.Proofs.Naming

namespace WasmBindings.Naming

open Text

/-- Small letters stand after capitals only. -/
def Capped (before : LetterClass) : List Stretch → Prop
  | [] => True
  | st :: rest => (st.letterClass = .lower → before = .upper) ∧ Capped st.letterClass rest

/-- No small letter stands right after a digit. -/
def Humped (s : List Char) : Prop := s.IsChain fun c d => c.isDigit = true → d.isLower = false

def Starts (s : List Char) : Prop := ∀ c ∈ s.head?, c.isLower = false

@[simp] theorem starts_nil : Starts [] := by
  intro c hc
  cases hc

theorem starts_cons {c : Char} {r : List Char} : Starts (c :: r) ↔ c.isLower = false := by
  simp [Starts]

theorem exists_stretches_cons {c : Char} {r : List Char}
    (halnum : ∀ d ∈ c :: r, d.isAlphanum) (hhumped : Humped (c :: r)) :
    ∃ ls rest, stretches (c :: r) = ⟨.of c, c :: ls⟩ :: rest ∧ Capped (.of c) rest := by
  induction r generalizing c with
  | nil => exact ⟨[], [], rfl, trivial⟩
  | cons d r ih =>
    obtain ⟨hcd, hrest⟩ := List.isChain_cons_cons.1 hhumped
    obtain ⟨ls, rest, hr, hcapped⟩ := ih (fun e he => halnum e (List.mem_cons_of_mem c he)) hrest
    rw [stretches, hr]
    by_cases hclass : LetterClass.of d = .of c
    · rw [hclass] at hcapped ⊢
      exact ⟨d :: ls, rest, if_pos rfl, hcapped⟩
    · refine ⟨[], ⟨.of d, d :: ls⟩ :: rest, if_neg hclass, ?_, hcapped⟩
      intro hlower
      have hdigit : ¬ c.isDigit = true := by
        intro hc
        rw [LetterClass.of_eq_lower_iff.1 hlower] at hcd
        cases hcd hc
      cases hof : LetterClass.of c with
      | upper => rfl
      | lower => exact absurd (hlower.trans hof.symm) hclass
      | digit => exact absurd (LetterClass.of_eq_digit_iff.1 hof) hdigit
      | other => exact absurd hof (LetterClass.of_ne_other (halnum c List.mem_cons_self))

theorem Stretch.Sound.starts {us us' : List Char} (h : (⟨.upper, us⟩ : Stretch).Sound)
    (hne : us' ≠ []) (hsub : us' ⊆ us) (t : List Char) : Starts (us' ++ t) := by
  obtain ⟨c, r, rfl⟩ := List.exists_cons_of_ne_nil hne
  rw [List.cons_append, starts_cons, ← Bool.not_eq_true]
  exact Char.not_isLower_of_isUpper (h.isUpper c (hsub List.mem_cons_self))

theorem Capped.of_not_lower {before before' : LetterClass} {ss : List Stretch}
    (h : Capped before ss) (hhead : ∀ st ∈ ss.head?, st.letterClass ≠ .lower) :
    Capped before' ss := by
  cases ss with
  | nil => trivial
  | cons st rest => exact ⟨fun hlower => absurd hlower (hhead st rfl), h.2⟩

theorem starts_of_mem_wordsOf {ss : List Stretch} (h : ∀ st ∈ ss, st.Sound)
    {before : LetterClass} (hbefore : before ≠ .upper) (hcapped : Capped before ss)
    {w : List Char} (hw : w ∈ wordsOf ss) : Starts w := by
  have hlower : LetterClass.lower ≠ .upper := by decide
  have hother : LetterClass.other ≠ .upper := by decide
  fun_induction wordsOf ss generalizing before with
  | case1 us ls rest hplural ih =>
    have hus : (⟨.upper, us⟩ : Stretch).Sound := h _ (by simp)
    rcases List.mem_cons.1 hw with rfl | hw
    · exact hus.starts hus.nonempty (List.Subset.refl us) ls
    · exact ih (fun st hst => h st (by simp [hst])) hlower hcapped.2.2 hw
  | case2 us ls rest hplural hlong ih =>
    have hus : (⟨.upper, us⟩ : Stretch).Sound := h _ (by simp)
    rcases List.mem_cons.1 hw with rfl | hw
    · have hfront := hus.starts (dropLast_ne_nil hlong) (List.dropLast_subset us) []
      rwa [List.append_nil] at hfront
    rcases List.mem_cons.1 hw with rfl | hw
    · exact hus.starts (drop_pred_ne_nil hlong) (List.drop_subset _ us) ls
    · exact ih (fun st hst => h st (by simp [hst])) hlower hcapped.2.2 hw
  | case3 us ls rest hplural hshort ih =>
    have hus : (⟨.upper, us⟩ : Stretch).Sound := h _ (by simp)
    rcases List.mem_cons.1 hw with rfl | hw
    · exact hus.starts hus.nonempty (List.Subset.refl us) ls
    · exact ih (fun st hst => h st (by simp [hst])) hlower hcapped.2.2 hw
  | case4 letters rest ih =>
    exact ih (fun st hst => h st (by simp [hst])) hother hcapped.2 hw
  | case5 st rest hpair _ ih =>
    have hst := h st List.mem_cons_self
    have hne : st.letterClass ≠ .lower := fun hclass => hbefore (hcapped.1 hclass)
    rcases List.mem_cons.1 hw with rfl | hw
    · obtain ⟨c, r, hletters⟩ := List.exists_cons_of_ne_nil hst.nonempty
      rw [hletters, starts_cons, ← Bool.not_eq_true, ← LetterClass.of_eq_lower_iff,
        hst.of_eq c (by simp [hletters])]
      exact hne
    · have hrest : ∀ st' ∈ rest.head?, st'.letterClass ≠ .lower := by
        rintro ⟨class', letters⟩ hst' rfl
        obtain ⟨more, rfl⟩ := List.head?_eq_some_iff.1 hst'
        exact hpair st.letters letters more (by rw [← hcapped.2.1 rfl]) rfl
      exact ih (fun st' hst => h st' (by simp [hst])) hlower (hcapped.2.of_not_lower hrest) hw
  | case6 => cases hw

theorem not_isUpper_of_isDigit {c : Char} (h : c.isDigit = true) : c.isUpper = false := by
  have halpha := not_isAlpha_of_isDigit h
  rw [Char.isAlpha, Bool.or_eq_false_iff] at halpha
  exact halpha.1

theorem not_isLower_of_isDigit {c : Char} (h : c.isDigit = true) : c.isLower = false := by
  have halpha := not_isAlpha_of_isDigit h
  rw [Char.isAlpha, Bool.or_eq_false_iff] at halpha
  exact halpha.2

theorem lower_of_not_isUpper {w : List Char} (hascii : IsAscii w)
    (h : ∀ c ∈ w, c.isUpper = false) : lower w = w := by
  have hsame : ∀ c ∈ w, c.toLower = c := by
    intro c hc
    exact Char.toLower_eq_of_not_isUpper (by simp [h c hc])
  rw [lower_of_ascii hascii, List.map_congr_left hsame, List.map_id']

theorem capitalize_cons {c : Char} (hc : c.toNat < 128) (r : List Char) :
    capitalize (c :: r) = c.toUpper :: r := by
  rw [capitalize, upperChar, if_pos hc]
  rfl

theorem capitalize_of_starts {w : List Char} (hascii : IsAscii w) (h : Starts w) :
    capitalize w = w := by
  cases w with
  | nil => rfl
  | cons c r =>
    have hlower : ¬ c.isLower = true := by simp [starts_cons.1 h]
    rw [capitalize_cons (hascii c List.mem_cons_self), Char.toUpper_eq_of_not_isLower hlower]

theorem flatMap_capitalize_of_starts {ws : List (List Char)} (hascii : ∀ w ∈ ws, IsAscii w)
    (h : ∀ w ∈ ws, Starts w) : ws.flatMap capitalize = ws.flatten := by
  have hsame : ∀ w ∈ ws, capitalize w = w := fun w hw =>
    capitalize_of_starts (hascii w hw) (h w hw)
  rw [List.flatMap_def, List.map_congr_left hsame, List.map_id']

namespace Uniform

variable {w : List Char} (h : Uniform w)
include h

theorem isAlphanum : ∀ c ∈ w, c.isAlphanum := by
  intro c hc
  rcases h.alpha_or_digit with halpha | hdigit
  · simp [Char.isAlphanum, halpha c hc]
  · simp [Char.isAlphanum, hdigit c hc]

theorem isAscii : IsAscii w := fun c hc => toNat_lt_of_isAlphanum (h.isAlphanum c hc)

theorem humped : Humped w := by
  apply List.Pairwise.isChain
  apply List.pairwise_of_forall_mem_list
  intro c hc d hd hdigit
  rcases h.alpha_or_digit with halpha | hdigits
  · have hc' := halpha c hc
    rw [not_isAlpha_of_isDigit hdigit] at hc'
    cases hc'
  · exact not_isLower_of_isDigit (hdigits d hd)

theorem lower : Uniform (lower w) := by
  rw [lower_of_ascii h.isAscii]
  refine ⟨by simpa using h.nonempty, ?_⟩
  rcases h.alpha_or_digit with halpha | hdigits
  · left
    rw [List.forall_mem_map]
    intro c hc
    rw [Char.isAlpha_toLower_eq_isAlpha, halpha c hc]
  · right
    rw [List.forall_mem_map]
    intro c hc
    rw [Char.toLower_eq_of_not_isUpper (by simp [not_isUpper_of_isDigit (hdigits c hc)]),
      hdigits c hc]

theorem capitalize : Uniform (capitalize w) ∧ Starts (capitalize w) := by
  obtain ⟨c, r, rfl⟩ := List.exists_cons_of_ne_nil h.nonempty
  rw [capitalize_cons (h.isAscii c List.mem_cons_self), starts_cons]
  rcases h.alpha_or_digit with halpha | hdigits
  · obtain ⟨hc, hr⟩ := List.forall_mem_cons.1 halpha
    refine ⟨⟨List.cons_ne_nil _ r, .inl (List.forall_mem_cons.2 ⟨?_, hr⟩)⟩,
      Char.isLower_toUpper_eq_false c⟩
    rw [Char.isAlpha_toUpper_eq_isAlpha, hc]
  · have hc := hdigits c List.mem_cons_self
    rw [Char.toUpper_eq_of_not_isLower (by simp [not_isLower_of_isDigit hc])]
    exact ⟨h, not_isLower_of_isDigit hc⟩

theorem of_append_left {noun verb : List Char} (heq : verb ++ noun = w) (hne : noun ≠ []) :
    Uniform noun := by
  subst heq
  refine ⟨hne, h.alpha_or_digit.imp ?_ ?_⟩
  · exact fun hall c hc => hall c (List.mem_append_right verb hc)
  · exact fun hall c hc => hall c (List.mem_append_right verb hc)

end Uniform

theorem isVerb_eq_true_iff {verb w : List Char} :
    isVerb verb w = true ↔ verb <+: w ∧ 3 < w.length := by
  rw [isVerb, Bool.and_eq_true, List.isPrefixOf_iff_prefix, decide_eq_true_iff]

theorem length_verb : ∀ verb ∈ verbs, verb.length = 3 := by decide

theorem isLower_verb : ∀ verb ∈ verbs, ∀ c ∈ verb, c.isLower = true := by simp [verbs]

theorem not_isVerb_of_isDigit {verb : List Char} (hverb : verb ∈ verbs) {w : List Char}
    (h : ∀ c ∈ w, c.isDigit = true) : isVerb verb w = false := by
  rw [Bool.eq_false_iff]
  intro his
  obtain ⟨c, r, rfl⟩ : ∃ c r, verb = c :: r := by
    apply List.exists_cons_of_length_pos
    rw [length_verb verb hverb]
    decide
  have hdigit := h c ((isVerb_eq_true_iff.1 his).1.subset List.mem_cons_self)
  have hlower := isLower_verb _ hverb c List.mem_cons_self
  rw [not_isLower_of_isDigit hdigit] at hlower
  cases hlower

structure Settled (w : List Char) : Prop where
  small : ∀ c ∈ w, c.isUpper = false
  verb : ∀ verb ∈ verbs, isVerb verb w = false

theorem settled_verb {verb : List Char} (hverb : verb ∈ verbs) : Settled verb := by
  constructor
  · intro c hc
    rw [← Bool.not_eq_true]
    exact Char.not_isUpper_of_isLower (isLower_verb verb hverb c hc)
  · intro verb' _
    rw [Bool.eq_false_iff]
    intro his
    have hlong := (isVerb_eq_true_iff.1 his).2
    rw [length_verb verb hverb] at hlong
    omega

theorem exists_splitVerb {first : List Char} {rest : List (List Char)} (hfirst : Uniform first)
    (hrest : ∀ w ∈ rest, Uniform w) : ∃ w ws, splitVerb (first :: rest) = w :: ws ∧
      Uniform w ∧ Settled w ∧ ∀ v ∈ ws, Uniform v := by
  rcases splitVerb_cases first rest with ⟨hs, hverb⟩ | ⟨verb, hverb, noun, hne, hcut, hs⟩
  · exact ⟨_, _, hs, hfirst.lower, ⟨fun c => hfirst.isAscii.isUpper_of_mem_lower, hverb⟩, hrest⟩
  · have hword : Uniform verb := by
      refine ⟨?_, .inl fun c hc => ?_⟩
      · rw [← List.length_pos_iff, length_verb verb hverb]
        decide
      · simp [Char.isAlpha, isLower_verb verb hverb c hc]
    refine ⟨_, _, hs, hword, settled_verb hverb, List.forall_mem_cons.2 ⟨?_, ?_⟩⟩
    · exact hfirst.lower.of_append_left hcut hne
    · rw [List.forall_mem_map]
      exact fun w hw => (hrest w hw).lower

theorem splitVerb_of_not_isVerb {first : List Char}
    (h : ∀ verb ∈ verbs, isVerb verb (lower first) = false) (rest : List (List Char)) :
    splitVerb (first :: rest) = lower first :: rest := by
  rw [verbs, List.forall_mem_cons, List.forall_mem_singleton] at h
  simp only [splitVerb, h.1, h.2, Bool.false_eq_true, if_false]

theorem splitVerb_of_settled {first : List Char} (hascii : IsAscii first) (h : Settled first)
    (rest : List (List Char)) : splitVerb (first :: rest) = first :: rest := by
  have hlower := lower_of_not_isUpper hascii h.small
  rw [splitVerb_of_not_isVerb (by rw [hlower]; exact h.verb), hlower]

structure IsCamel (s : List Char) : Prop where
  alphanum : ∀ c ∈ s, c.isAlphanum
  small : ∀ c ∈ s.head?, c.isUpper = false
  humped : Humped s
  verb : ∀ w, w <+: s → (∀ c ∈ w, c.isLower = true) → ∀ verb ∈ verbs, isVerb verb w = false

theorem rawWords_of_not_mem {s : List Char} (hne : s ≠ []) (h : '_' ∉ s) :
    rawWords s = partWords s := by
  simp [rawWords, splitAt_of_not_mem h, hne]

theorem IsCamel.camelChars_eq {s : List Char} (h : IsCamel s) : camelChars s = s := by
  cases s with
  | nil => rfl
  | cons c r =>
    obtain ⟨ls, rest, hstretches, hcapped⟩ := exists_stretches_cons h.alphanum h.humped
    have hsound : ∀ st ∈ (⟨.of c, c :: ls⟩ :: rest : List Stretch), st.Sound := by
      rw [← hstretches]
      exact fun st hst => sound_of_mem_stretches hst
    obtain ⟨hfirst, hrest⟩ := List.forall_mem_cons.1 hsound
    have hupper : LetterClass.of c ≠ .upper := by
      rw [Ne, LetterClass.of_eq_upper_iff, h.small c rfl]
      decide
    have hother := LetterClass.of_ne_other (h.alphanum c List.mem_cons_self)
    have hwords : partWords (c :: r) = (c :: ls) :: wordsOf rest := by
      rw [partWords, hstretches]
      cases hof : LetterClass.of c with
      | upper => exact absurd hof hupper
      | lower => simp [wordsOf]
      | digit => simp [wordsOf]
      | other => exact absurd hof hother
    have hflatten : (c :: ls) ++ (wordsOf rest).flatten = c :: r := by
      rw [← List.flatten_cons, ← hwords, flatten_partWords h.alphanum]
    have hsettled : Settled (c :: ls) := by
      constructor
      · intro d hd
        rw [← Bool.not_eq_true, ← LetterClass.of_eq_upper_iff, hfirst.of_eq d hd]
        exact hupper
      · intro verb hverb
        cases hof : LetterClass.of c with
        | upper => exact absurd hof hupper
        | lower =>
          rw [hof] at hfirst
          exact h.verb _ ⟨_, hflatten⟩ hfirst.isLower verb hverb
        | digit =>
          rw [hof] at hfirst
          exact not_isVerb_of_isDigit hverb hfirst.isDigit
        | other => exact absurd hof hother
    have hunderscore : '_' ∉ c :: r := fun hmem =>
      absurd (h.alphanum '_' hmem) (by decide)
    have hascii : ∀ w ∈ wordsOf rest, IsAscii w := fun w hw =>
      (uniform_of_mem_wordsOf hrest hw).isAscii
    rw [camelChars, wordsChars_eq, rawWords_of_not_mem (List.cons_ne_nil c r) hunderscore, hwords,
      splitVerb_of_settled (hfirst.uniform hother).isAscii hsettled]
    simp only
    rw [flatMap_capitalize_of_starts hascii fun w hw =>
      starts_of_mem_wordsOf hrest hupper hcapped hw, hflatten]

theorem wordsOf_ne_nil {s : List Char} (hne : s ≠ []) (h : ∀ c ∈ s, c.isAlphanum) :
    wordsOf (stretches s) ≠ [] := by
  intro hnil
  have hflatten := flatten_wordsOf fun st hst => class_ne_other h hst
  rw [hnil, List.flatten_nil, flatten_stretches] at hflatten
  exact hne hflatten.symm

theorem partWords_eq_wordsOf {part : List Char} (hne : part ≠ [])
    (h : ∀ c ∈ part, c.isAlphanum) : partWords part = wordsOf (stretches part) := by
  rw [partWords]
  split
  · next hnil => exact absurd hnil (wordsOf_ne_nil hne h)
  · rfl

section Identifier

variable {name : List Char} (h : ∀ c ∈ without ['_'] name, c.isAlphanum)
include h

theorem uniform_of_mem_rawWords {w : List Char} (hw : w ∈ rawWords name) : Uniform w := by
  obtain ⟨part, hpart, hword⟩ := List.mem_flatMap.1 hw
  obtain ⟨hmem, hne⟩ := List.mem_filter.1 hpart
  rw [partWords_eq_wordsOf (by simpa using hne) fun c hc =>
    h c (mem_without_of_mem_splitAt hmem hc)] at hword
  exact uniform_of_mem_wordsOf (fun st hst => sound_of_mem_stretches hst) hword

theorem rawWords_ne_nil (hne : without ['_'] name ≠ []) : rawWords name ≠ [] := by
  intro hnil
  rw [← flatten_rawWords h, hnil, List.flatten_nil] at hne
  exact hne rfl

theorem exists_wordsChars (hne : without ['_'] name ≠ []) : ∃ w ws, wordsChars name = w :: ws ∧
    Uniform w ∧ Settled w ∧ ∀ v ∈ ws, Uniform v := by
  obtain ⟨first, rest, hraw⟩ := List.exists_cons_of_ne_nil (rawWords_ne_nil h hne)
  have huniform : ∀ w ∈ first :: rest, Uniform w := by
    rw [← hraw]
    exact fun w hw => uniform_of_mem_rawWords h hw
  rw [wordsChars_eq, hraw]
  exact exists_splitVerb (huniform first List.mem_cons_self) fun w hw =>
    huniform w (List.mem_cons_of_mem first hw)

end Identifier

theorem humped_append {s t : List Char} (hs : Humped s) (ht : Humped t) (hstarts : Starts t) :
    Humped (s ++ t) :=
  List.isChain_append.2 ⟨hs, ht, fun _ _ d hd _ => hstarts d hd⟩

theorem humped_flatMap_capitalize {ws : List (List Char)} (h : ∀ w ∈ ws, Uniform w) :
    Humped (ws.flatMap capitalize) ∧ Starts (ws.flatMap capitalize) := by
  induction ws with
  | nil => exact ⟨List.isChain_nil, starts_nil⟩
  | cons w ws ih =>
    obtain ⟨hw, hws⟩ := List.forall_mem_cons.1 h
    obtain ⟨hhumped, hstarts⟩ := ih hws
    obtain ⟨hcapital, hfirst⟩ := hw.capitalize
    obtain ⟨c, r, hcons⟩ := List.exists_cons_of_ne_nil hcapital.nonempty
    rw [List.flatMap_cons]
    refine ⟨humped_append hcapital.humped hhumped hstarts, ?_⟩
    rw [hcons] at hfirst ⊢
    exact starts_cons.2 (starts_cons.1 hfirst)

theorem not_isVerb_of_prefix {w t p : List Char} (hw : Settled w) (ht : Starts t)
    (hp : p <+: w ++ t) (hsmall : ∀ c ∈ p, c.isLower = true) {verb : List Char}
    (hverb : verb ∈ verbs) : isVerb verb p = false := by
  have hshort : p <+: w := by
    rcases List.prefix_or_prefix_of_prefix hp (List.prefix_append w t) with hshort | hlong
    · exact hshort
    obtain ⟨q, rfl⟩ := hlong
    rw [List.prefix_append_right_inj] at hp
    cases q with
    | nil => rw [List.append_nil]
    | cons d q =>
      obtain ⟨t', rfl⟩ := hp
      have hd := hsmall d (by simp)
      rw [starts_cons.1 ht] at hd
      cases hd
  rw [Bool.eq_false_iff]
  intro his
  obtain ⟨hstart, hlength⟩ := isVerb_eq_true_iff.1 his
  have hfirst : isVerb verb w = true := isVerb_eq_true_iff.2
    ⟨hstart.trans hshort, Nat.lt_of_lt_of_le hlength hshort.length_le⟩
  rw [hw.verb verb hverb] at hfirst
  cases hfirst

theorem isCamel_camelChars {name : List Char} (h : ∀ c ∈ without ['_'] name, c.isAlphanum)
    (hne : without ['_'] name ≠ []) : IsCamel (camelChars name) := by
  obtain ⟨w, ws, hwords, hw, hsettled, hws⟩ := exists_wordsChars h hne
  obtain ⟨hhumped, hstarts⟩ := humped_flatMap_capitalize hws
  rw [camelChars, hwords]
  refine ⟨?_, ?_, ?_, ?_⟩
  · rw [List.forall_mem_append]
    refine ⟨hw.isAlphanum, fun c hc => ?_⟩
    obtain ⟨v, hv, hc⟩ := List.mem_flatMap.1 hc
    exact (hws v hv).capitalize.1.isAlphanum c hc
  · obtain ⟨c, r, rfl⟩ := List.exists_cons_of_ne_nil hw.nonempty
    intro d hd
    cases hd
    exact hsettled.small c List.mem_cons_self
  · exact humped_append hw.humped hhumped hstarts
  · exact fun p hp hsmall verb hverb => not_isVerb_of_prefix hsettled hstarts hp hsmall hverb

/-- The name is in camel case, or it has underscores only. -/
def InCamelCase (name : String) : Prop :=
  IsCamel name.toList ∨ ∀ c ∈ name.toList, c = '_'

theorem without_eq_nil_iff {s : List Char} : without ['_'] s = [] ↔ ∀ c ∈ s, c = '_' := by
  simp [without]

theorem inCamelCase_camelCase {name : String} (h : Piece.isIdentRun name.toList = true) :
    InCamelCase (camelCase name) := by
  have halnum := isAlphanum_of_isIdentRun h
  rw [InCamelCase, camelCase, String.toList_ofList]
  by_cases hnil : without ['_'] name.toList = []
  · rw [camelChars_of_underscores halnum hnil]
    exact .inr (without_eq_nil_iff.1 hnil)
  · exact .inl (isCamel_camelChars halnum hnil)

theorem InCamelCase.camelCase_eq {name : String} (h : InCamelCase name) :
    camelCase name = name := by
  have hchars : camelChars name.toList = name.toList := by
    rcases h with hcamel | hunderscores
    · exact hcamel.camelChars_eq
    · have hnil := without_eq_nil_iff.2 hunderscores
      exact camelChars_of_underscores (by simp [hnil]) hnil
  rw [camelCase, hchars, String.ofList_toList]

/-- An API name is its own API name, and the names that are their own are those in camel case. -/
theorem camelCase_stable {name : String} (h : Piece.isIdentRun name.toList = true) :
    camelCase (camelCase name) = camelCase name ∧ (camelCase name = name ↔ InCamelCase name) := by
  have hrange := inCamelCase_camelCase h
  refine ⟨hrange.camelCase_eq, ?_, InCamelCase.camelCase_eq⟩
  intro hname
  rwa [hname] at hrange

theorem camelCase_stable_xmlFile :
    Piece.isIdentRun "Set_XMLFile_IDs_2x".toList = true ∧
      camelCase "Set_XMLFile_IDs_2x" = "setXMLFileIDs2X" ∧
      camelCase "setXMLFileIDs2X" = "setXMLFileIDs2X" := by
  have hident : Piece.isIdentRun "Set_XMLFile_IDs_2x".toList = true := by decide
  have hcamel : camelCase "Set_XMLFile_IDs_2x" = "setXMLFileIDs2X" := by decide +kernel
  have hstable := (camelCase_stable hident).1
  rw [hcamel] at hstable
  exact ⟨hident, hcamel, hstable⟩

end WasmBindings.Naming
