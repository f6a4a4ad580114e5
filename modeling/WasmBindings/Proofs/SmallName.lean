import WasmBindings.Proofs.CamelCase

namespace WasmBindings.Naming

open Text

def isUnderscore (c : Char) : Bool := c == '_'

def coreChars (s : List Char) : List Char :=
  ((s.dropWhile isUnderscore).reverse.dropWhile isUnderscore).reverse

def core (name : String) : String := String.ofList (coreChars name.toList)

theorem rawWords_append_cons (s t : List Char) :
    rawWords (s ++ '_' :: t) = rawWords s ++ rawWords t := by
  rw [rawWords, splitAt_append_cons, List.filter_append, List.flatMap_append, rawWords, rawWords]

theorem rawWords_underscores_append {a : List Char} (ha : ∀ c ∈ a, c = '_') (s : List Char) :
    rawWords (a ++ s) = rawWords s := by
  induction a with
  | nil => rfl
  | cons c a ih =>
    obtain ⟨rfl, hrest⟩ := List.forall_mem_cons.1 ha
    have hcut := rawWords_append_cons [] (a ++ s)
    rw [List.nil_append] at hcut
    rw [List.cons_append, hcut, ih hrest]
    rfl

theorem rawWords_append_underscores {b : List Char} (hb : ∀ c ∈ b, c = '_') (s : List Char) :
    rawWords (s ++ b) = rawWords s := by
  cases b with
  | nil => rw [List.append_nil]
  | cons c b =>
    obtain ⟨rfl, hrest⟩ := List.forall_mem_cons.1 hb
    have hnone := rawWords_underscores_append hrest []
    rw [List.append_nil] at hnone
    rw [rawWords_append_cons, hnone]
    exact List.append_nil _

theorem eq_underscore_of_mem_takeWhile {s : List Char} {c : Char}
    (h : c ∈ s.takeWhile isUnderscore) : c = '_' := by
  simpa [isUnderscore] using List.mem_takeWhile_imp h

theorem exists_core (s : List Char) : ∃ a b, (∀ c ∈ a, c = '_') ∧ (∀ c ∈ b, c = '_') ∧
    s = a ++ (coreChars s ++ b) := by
  refine ⟨s.takeWhile isUnderscore, ((s.dropWhile isUnderscore).reverse.takeWhile
    isUnderscore).reverse, fun c hc => eq_underscore_of_mem_takeWhile hc,
    fun c hc => eq_underscore_of_mem_takeWhile (List.mem_reverse.1 hc), ?_⟩
  rw [coreChars, ← List.reverse_append, List.takeWhile_append_dropWhile, List.reverse_reverse,
    List.takeWhile_append_dropWhile]

theorem rawWords_coreChars (s : List Char) : rawWords (coreChars s) = rawWords s := by
  obtain ⟨a, b, ha, hb, hs⟩ := exists_core s
  conv_rhs => rw [hs]
  rw [rawWords_underscores_append ha, rawWords_append_underscores hb]

theorem without_coreChars (s : List Char) : without ['_'] (coreChars s) = without ['_'] s := by
  obtain ⟨a, b, ha, hb, hs⟩ := exists_core s
  conv_rhs => rw [hs]
  rw [without_append, without_append, without_eq_nil_iff.2 ha, without_eq_nil_iff.2 hb,
    List.nil_append, List.append_nil]

theorem head?_dropWhile_ne (s : List Char) : (s.dropWhile isUnderscore).head? ≠ some '_' := by
  intro h
  have hhead := List.head?_dropWhile_not isUnderscore s
  rw [h] at hhead
  exact absurd hhead (by decide)

theorem getLast?_coreChars (s : List Char) : (coreChars s).getLast? ≠ some '_' := by
  rw [coreChars, List.getLast?_reverse]
  exact head?_dropWhile_ne _

theorem head?_coreChars (s : List Char) : (coreChars s).head? ≠ some '_' := by
  intro h
  obtain ⟨r, hcore⟩ := List.head?_eq_some_iff.1 h
  have hfront : s.dropWhile isUnderscore = coreChars s ++
      ((s.dropWhile isUnderscore).reverse.takeWhile isUnderscore).reverse := by
    rw [coreChars, ← List.reverse_append, List.takeWhile_append_dropWhile, List.reverse_reverse]
  apply head?_dropWhile_ne s
  rw [hfront, hcore]
  rfl

theorem head?_without (s : List Char) : (without ['_'] s).head? = (coreChars s).head? := by
  have hhead := head?_coreChars s
  rw [← without_coreChars]
  cases hcore : coreChars s with
  | nil => rfl
  | cons c r =>
    rw [hcore] at hhead
    have hc : c ≠ '_' := fun he => hhead (by rw [he]; rfl)
    simp [without, hc]

theorem exists_ne_of_head? {l r : List Char} (h : (l ++ '_' :: r).head? ≠ some '_') :
    ∃ c ∈ l, c ≠ '_' := by
  cases l with
  | nil => exact absurd rfl h
  | cons c l => exact ⟨c, List.mem_cons_self, fun he => h (by rw [he]; rfl)⟩

theorem exists_ne_of_getLast? {l r : List Char} (h : (l ++ '_' :: r).getLast? ≠ some '_') :
    ∃ c ∈ r, c ≠ '_' := by
  rw [List.getLast?_append, List.getLast?_cons, Option.some_or] at h
  cases hr : r.getLast? with
  | none => exact absurd (by rw [hr]; rfl) h
  | some c => exact ⟨c, List.mem_of_getLast? hr, fun he => h (by rw [hr, he]; rfl)⟩

section Identifier

variable {s : List Char} (h : ∀ c ∈ without ['_'] s, c.isAlphanum)
include h

theorem rawWords_ne_nil_of_mem {c : Char} (hc : c ∈ s) (hne : c ≠ '_') : rawWords s ≠ [] :=
  rawWords_ne_nil h (List.ne_nil_of_mem (mem_without.2 ⟨hc, List.mem_singleton.not.2 hne⟩))

theorem underscore_not_mem_coreChars {w : List Char} (hw : rawWords s = [w]) :
    '_' ∉ coreChars s := by
  intro hmem
  obtain ⟨l, r, hcore⟩ := List.append_of_mem hmem
  have hhead := head?_coreChars s
  have hlast := getLast?_coreChars s
  rw [hcore] at hhead hlast
  obtain ⟨c, hc, hcne⟩ := exists_ne_of_head? hhead
  obtain ⟨d, hd, hdne⟩ := exists_ne_of_getLast? hlast
  rw [← without_coreChars, hcore, without_append, List.forall_mem_append] at h
  have hrest : ∀ e ∈ without ['_'] r, e.isAlphanum := by
    intro e he
    rw [mem_without] at he
    exact h.2 e (mem_without.2 ⟨List.mem_cons_of_mem '_' he.1, he.2⟩)
  have hleft := List.length_pos_iff.2 (rawWords_ne_nil_of_mem h.1 hc hcne)
  have hright := List.length_pos_iff.2 (rawWords_ne_nil_of_mem hrest hd hdne)
  rw [← rawWords_coreChars, hcore, rawWords_append_cons] at hw
  have hlength := congrArg List.length hw
  rw [List.length_append, List.length_singleton] at hlength
  omega

end Identifier

theorem stretches_of_class {k : LetterClass} {s : List Char} (hne : s ≠ [])
    (h : ∀ c ∈ s, LetterClass.of c = k) : stretches s = [⟨k, s⟩] := by
  induction s with
  | nil => exact absurd rfl hne
  | cons c r ih =>
    have hc := h c List.mem_cons_self
    cases r with
    | nil => rw [← hc]; rfl
    | cons d r =>
      have hr := ih (List.cons_ne_nil d r) fun e he => h e (List.mem_cons_of_mem c he)
      rw [stretches, hr]
      exact if_pos hc.symm

/-- The texts that are one word: small letters with at most one capital in front, or capitals, with
the plural mark or without. -/
inductive OneWord : List Char → Prop
  | small {w : List Char} (h : ∀ c ∈ w, c.isLower = true) : OneWord w
  | capital {c : Char} {w : List Char} (hc : c.isUpper = true)
      (h : ∀ d ∈ w, d.isLower = true) : OneWord (c :: w)
  | capitals {w : List Char} (h : ∀ c ∈ w, c.isUpper = true) : OneWord w
  | plural {w : List Char} (h : ∀ c ∈ w, c.isUpper = true) : OneWord (w ++ ['s'])

theorem oneWord_of_wordsOf {ss : List Stretch} (hsound : ∀ st ∈ ss, st.Sound) {w : List Char}
    (halpha : ∀ c ∈ w, c.isAlpha = true) (h : wordsOf ss = [w]) : OneWord w := by
  fun_induction wordsOf ss with
  | case1 us ls rest hplural _ =>
    have hus : (⟨.upper, us⟩ : Stretch).Sound := hsound _ (by simp)
    obtain ⟨rfl, -⟩ := List.cons.inj h
    rw [hplural.2.1]
    exact .plural hus.isUpper
  | case2 us ls rest hplural hlong _ =>
    cases (List.cons.inj h).2
  | case3 us ls rest hplural hshort _ =>
    have hus : (⟨.upper, us⟩ : Stretch).Sound := hsound _ (by simp)
    have hls : (⟨.lower, ls⟩ : Stretch).Sound := hsound _ (by simp)
    obtain ⟨rfl, -⟩ := List.cons.inj h
    obtain ⟨c, r, rfl⟩ := List.exists_cons_of_ne_nil hus.nonempty
    cases r with
    | nil => exact .capital (hus.isUpper c List.mem_cons_self) hls.isLower
    | cons d r => exact absurd (by simp) hshort
  | case4 letters rest ih => exact ih (fun st hst => hsound st (by simp [hst])) h
  | case5 st rest _ hother _ =>
    obtain ⟨rfl, -⟩ := List.cons.inj h
    have hst := hsound st List.mem_cons_self
    obtain ⟨k, letters⟩ := st
    cases k with
    | upper => exact .capitals hst.isUpper
    | lower => exact .small hst.isLower
    | digit =>
      obtain ⟨c, hc⟩ := List.exists_mem_of_ne_nil _ hst.nonempty
      have hdigit := not_isAlpha_of_isDigit (hst.isDigit c hc)
      rw [halpha c hc] at hdigit
      cases hdigit
    | other => exact absurd rfl (hother letters)
  | case6 => cases h

theorem wordsOf_stretches_small {w : List Char} (hne : w ≠ [])
    (h : ∀ c ∈ w, c.isLower = true) : wordsOf (stretches w) = [w] := by
  rw [stretches_of_class hne fun c hc => LetterClass.of_eq_lower_iff.2 (h c hc)]
  simp [wordsOf]

theorem wordsOf_stretches_capitals {w : List Char} (hne : w ≠ [])
    (h : ∀ c ∈ w, c.isUpper = true) : wordsOf (stretches w) = [w] := by
  rw [stretches_of_class hne fun c hc => LetterClass.of_eq_upper_iff.2 (h c hc)]
  simp [wordsOf]

theorem wordsOf_stretches_capital {c : Char} {r : List Char} (hc : c.isUpper = true)
    (h : ∀ d ∈ r, d.isLower = true) : wordsOf (stretches (c :: r)) = [c :: r] := by
  cases r with
  | nil => exact wordsOf_stretches_capitals (List.cons_ne_nil c []) (by simpa using hc)
  | cons d r =>
    have hupper := LetterClass.of_eq_upper_iff.2 hc
    rw [stretches, stretches_of_class (List.cons_ne_nil d r) fun e he =>
      LetterClass.of_eq_lower_iff.2 (h e he), hupper]
    simp [wordsOf]

structure Plain (w : List Char) : Prop where
  nonempty : w ≠ []
  small : ∀ c ∈ w, c.isLower = true
  verb : ∀ verb ∈ verbs, isVerb verb w = false
  singular : w.getLast? ≠ some 's'

def spellings (w : List Char) : List (List Char) := [w, capitalize w, w.map Char.toUpper]

section Small

variable {w : List Char} (h : ∀ c ∈ w, c.isLower = true)
include h

theorem isAlphanum_of_isLower : ∀ c ∈ w, c.isAlphanum = true := by
  intro c hc
  simp [Char.isAlphanum, Char.isAlpha, h c hc]

theorem map_toLower_of_isLower : w.map Char.toLower = w := by
  have hsame : ∀ c ∈ w, c.toLower = c := fun c hc =>
    Char.toLower_eq_of_not_isUpper (Char.not_isUpper_of_isLower (h c hc))
  rw [List.map_congr_left hsame, List.map_id']

end Small

theorem toUpper_toLower_of_isUpper {c : Char} (h : c.isUpper = true) : c.toLower.toUpper = c := by
  rw [Char.toUpper_toLower_eq_toUpper]
  exact Char.toUpper_eq_of_not_isLower (Char.not_isLower_of_isUpper h)

namespace Plain

variable {w : List Char} (h : Plain w)
include h

theorem mem_spellings {s : List Char} (hs : OneWord s) (hlower : s.map Char.toLower = w) :
    s ∈ spellings w := by
  rw [spellings, List.mem_cons, List.mem_cons, List.mem_singleton]
  cases hs with
  | small hsmall => exact .inl ((map_toLower_of_isLower hsmall).symm.trans hlower)
  | @capital c r hc hsmall =>
    have hascii : c.toLower.toNat < 128 :=
      toNat_toLower_lt (toNat_lt_of_isAlphanum (by simp [Char.isAlphanum, Char.isAlpha, hc]))
    right; left
    rw [← hlower, List.map_cons, map_toLower_of_isLower hsmall, capitalize_cons hascii,
      toUpper_toLower_of_isUpper hc]
  | capitals hcapitals =>
    have hback : ∀ c ∈ s, (Char.toUpper ∘ Char.toLower) c = c := fun c hc =>
      toUpper_toLower_of_isUpper (hcapitals c hc)
    right; right
    rw [← hlower, List.map_map, List.map_congr_left hback, List.map_id']
  | plural hcapitals =>
    refine absurd ?_ h.singular
    rw [← hlower, List.map_append, List.getLast?_append]
    rfl

theorem wordsOf_stretches {s : List Char} (hs : s ∈ spellings w) :
    wordsOf (stretches s) = [s] ∧ s.map Char.toLower = w ∧ ∀ c ∈ s, c.isAlphanum = true := by
  have hlower := map_toLower_of_isLower h.small
  have halnum := isAlphanum_of_isLower h.small
  rw [spellings, List.mem_cons, List.mem_cons, List.mem_singleton] at hs
  rcases hs with rfl | rfl | rfl
  · exact ⟨wordsOf_stretches_small h.nonempty h.small, hlower, halnum⟩
  · obtain ⟨c, r, rfl⟩ := List.exists_cons_of_ne_nil h.nonempty
    obtain ⟨hc, hr⟩ := List.forall_mem_cons.1 h.small
    have hcapital : c.toUpper.isUpper = true := by
      simp [Char.isUpper_toUpper_eq_isAlpha, Char.isAlpha, hc]
    rw [capitalize_cons (toNat_lt_of_isAlphanum (halnum c List.mem_cons_self))]
    refine ⟨wordsOf_stretches_capital hcapital hr, ?_, List.forall_mem_cons.2 ⟨?_, ?_⟩⟩
    · rw [List.map_cons, Char.toLower_toUpper_eq_toLower, ← List.map_cons, hlower]
    · simp [Char.isAlphanum, Char.isAlpha, hcapital]
    · exact isAlphanum_of_isLower hr
  · have hcapitals : ∀ c ∈ w.map Char.toUpper, c.isUpper = true := by
      rw [List.forall_mem_map]
      intro c hc
      simp [Char.isUpper_toUpper_eq_isAlpha, Char.isAlpha, h.small c hc]
    refine ⟨wordsOf_stretches_capitals (by simpa using h.nonempty) hcapitals, ?_, ?_⟩
    · rw [List.map_map]
      calc
        w.map (Char.toLower ∘ Char.toUpper) = w.map Char.toLower :=
          List.map_congr_left fun c _ => Char.toLower_toUpper_eq_toLower c
        _ = w := hlower
    · intro c hc
      simp [Char.isAlphanum, Char.isAlpha, hcapitals c hc]

section Name

variable {s : List Char} (halnum : ∀ c ∈ without ['_'] s, c.isAlphanum = true)
include halnum

theorem wordsChars_eq_of_camelChars (hs : camelChars s = w) : wordsChars s = [w] := by
  have hne : without ['_'] s ≠ [] := by
    intro hnil
    rw [camelChars_of_underscores halnum hnil] at hs
    subst hs
    obtain ⟨c, hc⟩ := List.exists_mem_of_ne_nil _ h.nonempty
    have hsmall := h.small c hc
    rw [without_eq_nil_iff.1 hnil c hc] at hsmall
    exact absurd hsmall (by decide)
  obtain ⟨v, vs, hwords, -, -, huniform⟩ := exists_wordsChars halnum hne
  rw [camelChars, hwords] at hs
  cases vs with
  | nil =>
    have hv : v = w := (List.append_nil v).symm.trans hs
    rw [hwords, hv]
  | cons u us =>
    -- A second word would start with a capital or a digit.
    obtain ⟨hcapital, hstarts⟩ := (huniform u List.mem_cons_self).capitalize
    obtain ⟨c, r, hcons⟩ := List.exists_cons_of_ne_nil hcapital.nonempty
    rw [hcons, starts_cons] at hstarts
    have hsmall := h.small c (by simp [← hs, hcons])
    rw [hstarts] at hsmall
    cases hsmall

theorem exists_rawWords_of_camelChars (hs : camelChars s = w) :
    ∃ first, rawWords s = [first] ∧ lower first = w := by
  have hwords := h.wordsChars_eq_of_camelChars halnum hs
  rw [wordsChars_eq] at hwords
  cases hraw : rawWords s with
  | nil =>
    rw [hraw] at hwords
    cases hwords
  | cons first rest =>
    rw [hraw] at hwords
    rcases splitVerb_cases first rest with ⟨hsplit, -⟩ | ⟨verb, -, noun, -, -, hsplit⟩
    · rw [hsplit] at hwords
      obtain ⟨hlower, rfl⟩ := List.cons.inj hwords
      exact ⟨first, rfl, hlower⟩
    · rw [hsplit] at hwords
      cases (List.cons.inj hwords).2

theorem camelChars_eq_iff : camelChars s = w ↔ coreChars s ∈ spellings w := by
  constructor
  · intro hs
    obtain ⟨first, hraw, hlower⟩ := h.exists_rawWords_of_camelChars halnum hs
    have hunderscore := underscore_not_mem_coreChars halnum hraw
    have hcore : ∀ c ∈ coreChars s, c.isAlphanum := by
      intro c hc
      rw [← without_coreChars] at halnum
      exact halnum c (mem_without.2 ⟨hc, List.mem_singleton.not.2 fun he => hunderscore (he ▸ hc)⟩)
    have hne : coreChars s ≠ [] := by
      intro hnil
      rw [← rawWords_coreChars, hnil] at hraw
      cases hraw
    rw [← rawWords_coreChars, rawWords_of_not_mem hne hunderscore] at hraw
    have hfirst : first = coreChars s := by
      rw [← flatten_partWords hcore, hraw]
      simp
    rw [hfirst, partWords_eq_wordsOf hne hcore] at hraw
    have hsmall : (coreChars s).map Char.toLower = w := by
      rw [← hlower, hfirst, lower_of_ascii fun c hc => toNat_lt_of_isAlphanum (hcore c hc)]
    have halpha : ∀ c ∈ coreChars s, c.isAlpha = true := by
      intro c hc
      have hlow := h.small c.toLower (by rw [← hsmall]; exact List.mem_map_of_mem hc)
      rwa [← Char.isLower_toLower_eq_isAlpha]
    exact h.mem_spellings (oneWord_of_wordsOf (fun st hst => sound_of_mem_stretches hst)
      halpha hraw) hsmall
  · intro hs
    obtain ⟨hwords, hlower, hcore⟩ := h.wordsOf_stretches hs
    have hunderscore : '_' ∉ coreChars s := fun hmem => absurd (hcore '_' hmem) (by decide)
    have hne : coreChars s ≠ [] := by
      intro hnil
      rw [hnil] at hwords
      cases hwords
    have hsmall : lower (coreChars s) = w := by
      rw [lower_of_ascii fun c hc => toNat_lt_of_isAlphanum (hcore c hc), hlower]
    rw [camelChars, wordsChars_eq, ← rawWords_coreChars, rawWords_of_not_mem hne hunderscore,
      partWords_eq_wordsOf hne hcore, hwords,
      splitVerb_of_not_isVerb (by rw [hsmall]; exact h.verb), hsmall]
    simp

end Name

end Plain

end WasmBindings.Naming
