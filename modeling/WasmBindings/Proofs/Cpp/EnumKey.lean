import WasmBindings.Cpp.Spelling
import WasmBindings.Proofs.Text.Run

namespace WasmBindings.Spelling

open Text

/-- A name made of word characters that is none of the words a spelling drops. -/
structure IsName (name : List Char) : Prop where
  nonempty : name ≠ []
  word : ∀ c ∈ name, isWord c = true
  free : name ∉ enumWord :: qualifierWords

instance (name : List Char) : Decidable (IsName name) :=
  decidable_of_iff
    (name ≠ [] ∧ name.all isWord = true ∧ (enumWord :: qualifierWords).contains name = false)
    ⟨fun h => ⟨h.1, List.all_eq_true.1 h.2.1, by simpa using h.2.2⟩,
      fun h => ⟨h.1, List.all_eq_true.2 h.2, by simpa using h.3⟩⟩

inductive IsPath : List Char → Prop
  | name {n : List Char} (h : IsName n) : IsPath n
  | cons {n p : List Char} (h : IsName n) (hp : IsPath p) : IsPath (n ++ ':' :: ':' :: p)

inductive Lead (words : List (List Char)) : List Char → Prop
  | nil : Lead words []
  | blank {b : Char} {s : List Char} (hb : isBlank b = true) (hs : Lead words s) :
      Lead words (b :: s)
  | word {w s : List Char} {b : Char} (hw : w ∈ words) (hb : isBlank b = true)
      (hs : Lead words s) : Lead words (w ++ b :: s)

def marks : List Char := ['&', '*']

def isGap (c : Char) : Bool := isBlank c || marks.contains c

inductive Trail : List Char → Prop
  | nil : Trail []
  | gap {c : Char} {s : List Char} (hc : isGap c = true) (hs : Trail s) : Trail (c :: s)
  | word {c : Char} {w s : List Char} (hc : isGap c = true) (hw : w ∈ qualifierWords)
      (hs : Trail s) : Trail (c :: (w ++ s))

/-- The path with qualifiers, tags and marks around it. -/
def Decorates (path type : List Char) : Prop :=
  ∃ lead trail, Lead (enumWord :: qualifierWords) lead ∧ Trail trail ∧
    type = lead ++ (path ++ trail)

theorem Decorates.refl (path : List Char) : Decorates path path :=
  ⟨[], [], .nil, .nil, by simp⟩

def solid (s : List Char) : List Char := withoutBlanks (without marks s)

@[simp] theorem solid_append (s t : List Char) : solid (s ++ t) = solid s ++ solid t := by
  simp [solid]

theorem solid_cons (c : Char) (s : List Char) :
    solid (c :: s) = if isGap c then solid s else c :: solid s := by
  by_cases hmark : c ∈ marks
  · simp [solid, without, isGap, hmark]
  · cases hblank : isBlank c <;> simp [solid, without, withoutBlanks, isGap, hmark, hblank]

theorem solid_cons_of_gap {c : Char} (h : isGap c = true) (s : List Char) :
    solid (c :: s) = solid s := by
  rw [solid_cons, if_pos h]

theorem solid_cons_of_not_gap {c : Char} (h : isGap c = false) (s : List Char) :
    solid (c :: s) = c :: solid s := by
  rw [solid_cons, h, if_neg Bool.false_ne_true]

theorem solid_of_gaps {s : List Char} (h : ∀ c ∈ s, isGap c = true) : solid s = [] := by
  induction s with
  | nil => rfl
  | cons c s ih =>
    rw [solid_cons_of_gap (h c List.mem_cons_self), ih fun d hd => h d (List.mem_cons_of_mem c hd)]

theorem solid_of_not_gaps {s : List Char} (h : ∀ c ∈ s, isGap c = false) : solid s = s := by
  induction s with
  | nil => rfl
  | cons c s ih =>
    rw [solid_cons_of_not_gap (h c List.mem_cons_self),
      ih fun d hd => h d (List.mem_cons_of_mem c hd)]

theorem isGap_of_isBlank {c : Char} (h : isBlank c = true) : isGap c = true := by
  simp [isGap, h]

theorem not_isWord_of_isGap {c : Char} (h : isGap c = true) : isWord c = false := by
  rw [isGap, Bool.or_eq_true] at h
  rcases h with h | h
  · exact isWord_of_isBlank h
  · simp only [marks, List.contains_iff_mem, List.mem_cons, List.not_mem_nil, or_false] at h
    rcases h with rfl | rfl <;> rfl

theorem not_isGap_of_isWord {c : Char} (h : isWord c = true) : isGap c = false := by
  by_contra hgap
  rw [not_isWord_of_isGap (by simpa using hgap)] at h
  cases h

theorem singleton_not_mem_qualifierWords (c : Char) : [c] ∉ qualifierWords := by
  simp [qualifierWords, constWord]

theorem singleton_not_mem_tags (c : Char) : [c] ∉ [enumWord] := by
  simp [enumWord]

theorem isWord_of_mem_dropped {w : List Char} (hw : w ∈ enumWord :: qualifierWords) :
    w ≠ [] ∧ ∀ c ∈ w, isWord c = true := by
  have h : ∀ w ∈ enumWord :: qualifierWords, w ≠ [] ∧ w.all isWord = true := by decide
  exact ⟨(h w hw).1, List.all_eq_true.1 (h w hw).2⟩

def scopeKey (s : List Char) : List Char :=
  solid (dropTags [enumWord] (collapse (removeWords qualifierWords s)))

def keyChars (s : List Char) : List Char :=
  solid (dropTags [enumWord] (trimEnd (collapse (removeWords qualifierWords s))))

theorem dropTags_cons_of_blank {b : Char} (hb : isBlank b = true) (s : List Char) :
    dropTags [enumWord] (b :: s) = b :: dropTags [enumWord] s := by
  have htag : [enumWord].contains [b] = false := by simpa using singleton_not_mem_tags b
  rw [dropTags, runs_cons_of_not_word (isWord_of_isBlank hb), dropTagsFrom, htag]
  rfl

theorem solid_dropTags_trimStart (s : List Char) :
    solid (dropTags [enumWord] (trimEnd (trimStart s))) =
      solid (dropTags [enumWord] (trimEnd s)) := by
  induction s with
  | nil => rfl
  | cons c s ih =>
    cases hc : isBlank c with
    | false =>
      rw [trimStart_of_head? rfl hc]
    | true =>
      have hstart : trimStart (c :: s) = trimStart s := List.dropWhile_cons_of_pos hc
      rw [hstart, ih, trimEnd_cons_of_blank hc]
      split
      · next hs => rw [hs]
      · rw [dropTags_cons_of_blank hc, solid_cons_of_gap (isGap_of_isBlank hc)]

theorem toList_enumKey (type : String) : (enumKey type).toList = keyChars type.toList := by
  rw [enumKey, String.toList_ofList]
  exact solid_dropTags_trimStart _

theorem keyChars_colon (s t : List Char) : keyChars (s ++ ':' :: t) =
    scopeKey s ++ ':' :: keyChars t := by
  have hword : isWord ':' = false := by decide
  have hblank : isBlank ':' = false := by decide
  rw [keyChars, removeWords_append_cons hword (singleton_not_mem_qualifierWords ':'),
    collapse_append_cons hblank, trimEnd_append_cons hblank,
    dropTags_append_cons hword (singleton_not_mem_tags ':') hblank, solid_append,
    solid_cons_of_not_gap (by decide), scopeKey, keyChars]

theorem startsApart_removeWords {s : List Char} (hs : StartsApart s) :
    StartsApart (removeWords qualifierWords s) := by
  cases s with
  | nil => exact startsApart_nil
  | cons c s =>
    have hc := startsApart_cons.1 hs
    have hcut := removeWords_append_cons hc (singleton_not_mem_qualifierWords c) [] s
    rw [List.nil_append] at hcut
    rw [hcut]
    exact startsApart_cons.2 hc

theorem startsApart_collapse {s : List Char} (hs : StartsApart s) : StartsApart (collapse s) := by
  cases s with
  | nil => exact startsApart_nil
  | cons c s =>
    rw [collapse]
    split
    · split <;> exact startsApart_cons.2 (by decide)
    · exact startsApart_cons.2 (startsApart_cons.1 hs)

theorem startsApart_trimEnd {s : List Char} (hs : StartsApart s) : StartsApart (trimEnd s) := by
  cases s with
  | nil => exact startsApart_nil
  | cons c s =>
    cases hc : isBlank c with
    | false =>
      have hcut := trimEnd_append_cons hc [] s
      rw [List.nil_append] at hcut
      rw [hcut]
      exact startsApart_cons.2 (startsApart_cons.1 hs)
    | true =>
      rw [trimEnd_cons_of_blank hc]
      split
      · exact startsApart_nil
      · exact startsApart_cons.2 (startsApart_cons.1 hs)

section Name

variable {n : List Char} (hn : IsName n)

include hn

theorem IsName.not_blank {c : Char} (hc : c ∈ n) : isBlank c = false :=
  isBlank_of_isWord (hn.word c hc)

theorem IsName.solid : solid n = n :=
  solid_of_not_gaps fun c hc => not_isGap_of_isWord (hn.word c hc)

theorem IsName.collapse_append (s t : List Char) :
    collapse (s ++ (n ++ t)) = collapse s ++ (n ++ collapse t) := by
  obtain ⟨c, r, rfl⟩ := List.exists_cons_of_ne_nil hn.nonempty
  have hr : ∀ d ∈ r, isBlank d = false := fun d hd => hn.not_blank (List.mem_cons_of_mem c hd)
  rw [List.cons_append, collapse_append_cons (hn.not_blank List.mem_cons_self),
    collapse_append_of_not_blank hr, List.cons_append]

theorem IsName.trimEnd_append (s t : List Char) :
    trimEnd (s ++ (n ++ t)) = s ++ (n ++ trimEnd t) := by
  obtain ⟨n', c, rfl⟩ := List.eq_nil_or_concat n |>.resolve_left hn.nonempty
  have hc : isBlank c = false := hn.not_blank (by simp)
  have hcut := trimEnd_append_cons hc (s ++ n') t
  simpa using hcut

theorem IsName.removeWords_append {t : List Char} (ht : StartsApart t) :
    removeWords qualifierWords (n ++ t) = n ++ removeWords qualifierWords t := by
  have hfree : n ∉ qualifierWords := fun h => hn.free (List.mem_cons_of_mem _ h)
  rw [removeWords_word_append hn.nonempty hn.word ht, if_neg hfree]

theorem IsName.runs_tidy {t : List Char} (ht : StartsApart t) :
    runs (n ++ trimEnd (collapse (removeWords qualifierWords t))) =
      n :: runs (trimEnd (collapse (removeWords qualifierWords t))) :=
  runs_word_append hn.nonempty hn.word
    (startsApart_trimEnd (startsApart_collapse (startsApart_removeWords ht)))

theorem IsName.keyChars_append {t : List Char} (ht : StartsApart t) :
    keyChars (n ++ t) = n ++ keyChars t := by
  have htag : n ∉ [enumWord] := fun h => hn.free (List.mem_cons.2 (.inl (List.mem_singleton.1 h)))
  have htidy := hn.trimEnd_append [] (collapse (removeWords qualifierWords t))
  have hcollapse := hn.collapse_append [] (removeWords qualifierWords t)
  rw [List.nil_append] at htidy hcollapse
  rw [keyChars, hn.removeWords_append ht, hcollapse]
  rw [show collapse [] = [] from rfl, List.nil_append, htidy, List.nil_append,
    dropTags_word_append hn.nonempty hn.word htag
      (startsApart_trimEnd (startsApart_collapse (startsApart_removeWords ht))),
    solid_append, hn.solid, keyChars]

theorem IsName.keyChars : keyChars n = n := by
  have h := hn.keyChars_append startsApart_nil
  rwa [List.append_nil, show Spelling.keyChars [] = [] from rfl, List.append_nil] at h

end Name

theorem Trail.startsApart {s : List Char} (h : Trail s) : StartsApart s := by
  cases h with
  | nil => exact startsApart_nil
  | gap hc _ => exact startsApart_cons.2 (not_isWord_of_isGap hc)
  | word hc _ _ => exact startsApart_cons.2 (not_isWord_of_isGap hc)

theorem removeWords_gap {c : Char} (hc : isGap c = true) (s : List Char) :
    removeWords qualifierWords (c :: s) = c :: removeWords qualifierWords s :=
  removeWords_append_cons (not_isWord_of_isGap hc) (singleton_not_mem_qualifierWords c) [] s

theorem Trail.gaps {s : List Char} (h : Trail s) :
    ∀ c ∈ removeWords qualifierWords s, isGap c = true := by
  induction h with
  | nil =>
    intro c hc
    cases hc
  | gap hc _ ih =>
    rw [removeWords_gap hc]
    exact List.forall_mem_cons.2 ⟨hc, ih⟩
  | word hc hw hs ih =>
    obtain ⟨hne, hword⟩ := isWord_of_mem_dropped (List.mem_cons_of_mem _ hw)
    rw [removeWords_gap hc, removeWords_word_append hne hword hs.startsApart, if_pos hw,
      List.nil_append]
    exact List.forall_mem_cons.2 ⟨hc, ih⟩

theorem Trail.keyChars {s : List Char} (h : Trail s) : keyChars s = [] := by
  apply solid_of_gaps
  intro c hc
  rcases mem_of_mem_collapse (mem_of_mem_trimEnd (mem_of_mem_dropTags hc)) with rfl | hc
  · exact isGap_of_isBlank isBlank_space
  · exact h.gaps c hc

theorem Lead.exists_removeWords {s : List Char} (h : Lead (enumWord :: qualifierWords) s) :
    ∃ s', Lead [enumWord] s' ∧
      ∀ t, removeWords qualifierWords (s ++ t) = s' ++ removeWords qualifierWords t := by
  induction h with
  | nil => exact ⟨[], .nil, fun t => rfl⟩
  | @blank b s hb _ ih =>
    obtain ⟨s', hs', heq⟩ := ih
    refine ⟨b :: s', .blank hb hs', fun t => ?_⟩
    rw [List.cons_append, removeWords_gap (isGap_of_isBlank hb), heq]
    rfl
  | @word w s b hw hb _ ih =>
    obtain ⟨s', hs', heq⟩ := ih
    obtain ⟨hne, hword⟩ := isWord_of_mem_dropped hw
    have hcut : ∀ t, removeWords qualifierWords (w ++ b :: s ++ t) =
        (if w ∈ qualifierWords then [] else w) ++ b :: (s' ++ removeWords qualifierWords t) := by
      intro t
      rw [List.append_assoc, List.cons_append, removeWords_word_append hne hword
        (startsApart_cons.2 (isWord_of_isBlank hb)), removeWords_gap (isGap_of_isBlank hb), heq]
    by_cases hq : w ∈ qualifierWords
    · refine ⟨b :: s', .blank hb hs', fun t => ?_⟩
      rw [hcut, if_pos hq]
      rfl
    · refine ⟨w ++ b :: s', .word (by simpa [hq] using hw) hb hs', fun t => ?_⟩
      rw [hcut, if_neg hq]
      simp

theorem Lead.exists_collapse {s : List Char} (h : Lead [enumWord] s) :
    ∃ q, Lead [enumWord] q ∧ q.head? ≠ some ' ' ∧ (collapse s = q ∨ collapse s = ' ' :: q) := by
  have hspace : ∀ {b : Char} {s q : List Char}, isBlank b = true → q.head? ≠ some ' ' →
      (collapse s = q ∨ collapse s = ' ' :: q) → collapse (b :: s) = ' ' :: q := by
    intro b s q hb hq hs
    rw [collapse, if_pos hb]
    rcases hs with hs | hs
    · rw [hs]
      split
      · simp at hq
      · rfl
    · simp [hs]
  induction h with
  | nil => exact ⟨[], .nil, by simp, .inl rfl⟩
  | blank hb _ ih =>
    obtain ⟨q, hlead, hq, hs⟩ := ih
    exact ⟨q, hlead, hq, .inr (hspace hb hq hs)⟩
  | @word w s b hw hb _ ih =>
    obtain ⟨q, hlead, hq, hs⟩ := ih
    refine ⟨w ++ ' ' :: q, .word hw isBlank_space hlead, ?_, .inl ?_⟩
    · rw [List.mem_singleton.1 hw]
      simp [enumWord]
    · have htag : ∀ t, collapse (w ++ t) = w ++ collapse t := by
        intro t
        rw [List.mem_singleton.1 hw]
        rfl
      rw [htag, hspace hb hq hs]

theorem Lead.collapse {s : List Char} (h : Lead [enumWord] s) : Lead [enumWord] (collapse s) := by
  obtain ⟨q, hlead, -, hs | hs⟩ := h.exists_collapse
  · rw [hs]
    exact hlead
  · rw [hs]
    exact .blank isBlank_space hlead

theorem Lead.solid_dropTagsFrom {s : List Char} (h : Lead [enumWord] s) {t w : List Char}
    {ws : List (List Char)} (ht : runs t = w :: ws)
    (hblank : isBlankRun w = false) (skipping : Bool) :
    solid (dropTagsFrom [enumWord] skipping (runs (s ++ t))) = solid (dropTags [enumWord] t) := by
  induction h generalizing skipping with
  | nil =>
    rw [dropTags, List.nil_append, ht, dropTagsFrom, dropTagsFrom]
    simp [hblank]
  | @blank b s hb _ ih =>
    have htag : [enumWord].contains [b] = false := by simpa using singleton_not_mem_tags b
    rw [List.cons_append, runs_cons_of_not_word (isWord_of_isBlank hb), dropTagsFrom, htag]
    cases skipping with
    | true => simpa [isBlankRun_singleton, hb] using ih true
    | false => simpa [solid_cons_of_gap (isGap_of_isBlank hb)] using ih false
  | @word v s b hv hb _ ih =>
    cases List.mem_singleton.1 hv
    obtain ⟨hne, hword⟩ := isWord_of_mem_dropped (List.mem_cons_self (a := enumWord))
    have htag : isBlankRun enumWord = false := by decide
    have hnext : ∀ rest, blankNext ([b] :: rest) = true := fun rest => by
      rw [blankNext, isBlankRun_singleton, hb]
    rw [List.append_assoc, List.cons_append, runs_append_cons (isWord_of_isBlank hb),
      runs_of_word hne hword, List.singleton_append, dropTagsFrom, hnext, htag]
    rw [Bool.and_false, if_neg (by decide), if_pos (by decide), dropTagsFrom,
      isBlankRun_singleton, hb]
    exact ih true

theorem Lead.keyChars {s n t : List Char} (h : Lead (enumWord :: qualifierWords) s)
    (hn : IsName n) (ht : StartsApart t) : keyChars (s ++ (n ++ t)) = keyChars (n ++ t) := by
  obtain ⟨s', hs', heq⟩ := h.exists_removeWords
  have htidy : ∀ u, trimEnd (Text.collapse (u ++ removeWords qualifierWords (n ++ t))) =
      Text.collapse u ++ (n ++ trimEnd (Text.collapse (removeWords qualifierWords t))) := by
    intro u
    rw [hn.removeWords_append ht, hn.collapse_append, hn.trimEnd_append]
  have hplain := htidy []
  rw [List.nil_append] at hplain
  rw [Spelling.keyChars, heq, htidy, Spelling.keyChars, hplain]
  exact hs'.collapse.solid_dropTagsFrom (hn.runs_tidy ht)
    (isBlankRun_of_word hn.nonempty hn.word) false

theorem keyChars_scope (s t : List Char) :
    keyChars (s ++ ':' :: ':' :: t) = scopeKey s ++ ':' :: ':' :: keyChars t := by
  have hcolon := keyChars_colon [] t
  rw [List.nil_append] at hcolon
  rw [keyChars_colon, hcolon]
  rfl

theorem IsPath.keyChars_append {p : List Char} (hp : IsPath p) {t : List Char} (ht : Trail t) :
    keyChars (p ++ t) = p := by
  induction hp with
  | name hn => rw [hn.keyChars_append ht.startsApart, ht.keyChars, List.append_nil]
  | @cons n p hn _ ih =>
    have hcolon := keyChars_scope [] (p ++ t)
    rw [List.nil_append] at hcolon
    rw [List.append_assoc, List.cons_append, List.cons_append,
      hn.keyChars_append (startsApart_cons.2 (by decide)), hcolon, ih]
    rfl

theorem Decorates.keyChars {p type : List Char} (h : Decorates p type) (hp : IsPath p) :
    keyChars type = p := by
  obtain ⟨lead, trail, hlead, htrail, rfl⟩ := h
  refine Eq.trans ?_ (hp.keyChars_append htrail)
  cases hp with
  | name hn => exact hlead.keyChars hn htrail.startsApart
  | cons hn _ =>
    rw [List.append_assoc]
    exact hlead.keyChars hn (startsApart_cons.2 (by decide))

theorem enumKey_of_decorates {p : List Char} {type : String} (h : Decorates p type.toList)
    (hp : IsPath p) : enumKey type = String.ofList p := by
  rw [← String.toList_inj, toList_enumKey, h.keyChars hp, String.toList_ofList]

end WasmBindings.Spelling
