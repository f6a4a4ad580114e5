import Mathlib.Data.List.Induction
import WasmBindings.Cpp.Spelling
import WasmBindings.Proofs.Text.Run

namespace WasmBindings.Spelling

open Text

theorem not_isWord_of_isMark {c : Char} (h : isMark c = true) : isWord c = false := by
  have hmarks : ['*', '&', '<', '>', ','].all (!isWord ·) = true := by decide
  simpa using List.all_eq_true.1 hmarks c (by simpa [isMark] using h)

theorem not_isBlank_of_isMark {c : Char} (h : isMark c = true) : isBlank c = false := by
  have hmarks : ['*', '&', '<', '>', ','].all (!isBlank ·) = true := by decide
  simpa using List.all_eq_true.1 hmarks c (by simpa [isMark] using h)

theorem ne_space_of_not_isBlank {c : Char} (h : isBlank c = false) : c ≠ ' ' := by
  rintro rfl
  cases h

theorem isWord_constWord : ∀ c ∈ constWord, isWord c = true :=
  List.all_eq_true.1 (by decide)

/-- Blanks are single spaces, and none is next to a mark.  The flag says that the text stands right
after a mark. -/
def Tight : Bool → List Char → Prop
  | _, [] => True
  | afterMark, c :: r =>
    (isBlank c = true → c = ' ' ∧ afterMark = false ∧
      ∀ d ∈ r.head?, isBlank d = false ∧ isMark d = false) ∧ Tight (isMark c) r

theorem tight_tightenFrom (afterMark : Bool) (s : List Char) :
    Tight afterMark (tightenFrom afterMark (collapse s)) := by
  induction s generalizing afterMark with
  | nil => trivial
  | cons c r ih =>
    by_cases hc : isBlank c = true
    · rcases collapse_cons_cases hc r with ⟨h, -⟩ | ⟨h, hhead⟩
      · rw [h]
        exact ih afterMark
      · rw [h, tightenFrom]
        split
        · exact ih afterMark
        · next hkept =>
          simp only [true_and, not_or, Bool.not_eq_true] at hkept
          refine ⟨fun _ => ⟨rfl, hkept.1, ?_⟩, ih (isMark ' ')⟩
          intro d hd
          cases hr : collapse r with
          | nil =>
            rw [hr] at hd
            cases hd
          | cons e t =>
            rw [hr, Option.any_eq_false] at hkept
            have he : e ≠ ' ' := fun h => hhead (by rw [hr, h]; rfl)
            rw [hr, tightenFrom, if_neg fun h => he h.1] at hd
            cases hd
            exact ⟨(head?_collapse (by rw [hr]; rfl)).resolve_left he, by simpa using hkept.2⟩
    · have hc' : isBlank c = false := by simpa using hc
      rw [collapse_cons_of_not_blank hc', tightenFrom,
        if_neg fun h => ne_space_of_not_isBlank hc' h.1]
      exact ⟨fun h => absurd h hc, ih (isMark c)⟩

theorem not_isMark_of_isWord {c : Char} (h : isWord c = true) : isMark c = false := by
  by_contra hmark
  rw [not_isWord_of_isMark (by simpa using hmark)] at h
  cases h

theorem tightenFrom_cons_of_not_isBlank {c : Char} (hc : isBlank c = false) (afterMark : Bool)
    (s : List Char) : tightenFrom afterMark (c :: s) = c :: tightenFrom (isMark c) s := by
  rw [tightenFrom, if_neg fun h => ne_space_of_not_isBlank hc h.1]

theorem tightenFrom_true_space (s : List Char) :
    tightenFrom true (' ' :: s) = tightenFrom true s := by
  simp [tightenFrom]

theorem tightenFrom_false_space_cases (s : List Char) :
    tightenFrom false (' ' :: s) = tightenFrom false s ∨
      tightenFrom false (' ' :: s) = ' ' :: tightenFrom false s := by
  rw [tightenFrom]
  split
  · exact .inl rfl
  · exact .inr rfl

section Word

variable {w : List Char} (hne : w ≠ []) (hw : ∀ c ∈ w, isWord c = true)
include hne hw

theorem Tight.of_word_append {afterMark : Bool} {s : List Char} (h : Tight afterMark (w ++ s)) :
    Tight false s := by
  induction w generalizing afterMark with
  | nil => exact absurd rfl hne
  | cons c w ih =>
    cases w with
    | nil =>
      rw [← not_isMark_of_isWord (hw c List.mem_cons_self)]
      exact h.2
    | cons d w =>
      exact ih (List.cons_ne_nil d w) (fun e he => hw e (List.mem_cons_of_mem c he)) h.2

theorem tightenFrom_word_append (afterMark : Bool) (s : List Char) :
    tightenFrom afterMark (w ++ s) = w ++ tightenFrom false s := by
  induction w generalizing afterMark with
  | nil => exact absurd rfl hne
  | cons c w ih =>
    have hc := hw c List.mem_cons_self
    rw [List.cons_append, tightenFrom_cons_of_not_isBlank (isBlank_of_isWord hc),
      not_isMark_of_isWord hc]
    cases w with
    | nil => rfl
    | cons d w =>
      rw [ih (List.cons_ne_nil d w) fun e he => hw e (List.mem_cons_of_mem c he)]
      rfl

end Word

theorem startsApart_tightenFrom {s : List Char} (h : StartsApart s) :
    StartsApart (tightenFrom false s) := by
  cases s with
  | nil => exact startsApart_nil
  | cons c r =>
    have hc := startsApart_cons.1 h
    rw [tightenFrom]
    split
    · next hdropped =>
      simp only [Bool.false_eq_true, false_or] at hdropped
      obtain ⟨d, hd, hmark⟩ := (Option.any_eq_true _ _).1 hdropped.2
      obtain ⟨t, rfl⟩ := List.head?_eq_some_iff.1 hd
      rw [tightenFrom_cons_of_not_isBlank (not_isBlank_of_isMark hmark)]
      exact startsApart_cons.2 (not_isWord_of_isMark hmark)
    · exact startsApart_cons.2 hc

theorem Tight.collapse_spacedFrom {afterMark : Bool} {s : List Char} (h : Tight afterMark s)
    (after : Bool) :
    collapse (spacedFrom constWord after s) = spacedFrom constWord after s := by
  induction s using runs_induction generalizing afterMark after with
  | nil => rfl
  | single c s hc ih =>
    obtain ⟨hblank, hs⟩ := h
    by_cases hb : isBlank c = true
    · obtain ⟨rfl, -, hhead⟩ := hblank hb
      cases after with
      | true =>
        rw [spacedFrom_true_of_blank hb]
        exact ih hs true
      | false =>
        rw [spacedFrom_cons isWord_constWord hc rfl, collapse_space_cons, ih hs]
        intro d hd
        rw [head?_spacedFrom_false isWord_constWord] at hd
        exact (hhead d hd).1
    · have hb' : isBlank c = false := by simpa using hb
      rw [spacedFrom_cons isWord_constWord hc (by rw [hb', Bool.and_false]),
        collapse_cons_of_not_blank hb', ih hs]
  | word w s hne hw hs ih =>
    have hleft := h.of_word_append hne hw
    rw [spacedFrom_word_append hne hw hs,
      collapse_append_of_not_blank fun c hc => isBlank_of_isWord (hw c hc)]
    split
    · rw [collapse_space_cons fun d hd => head?_spacedFrom_true isWord_constWord hd, ih hleft]
    · rw [ih hleft]

theorem Tight.spacedFrom_tightenFrom {afterMark : Bool} {s : List Char} (h : Tight afterMark s)
    (after : Bool) :
    spacedFrom constWord after (tightenFrom afterMark (spacedFrom constWord after s)) =
      spacedFrom constWord after s := by
  induction s using runs_induction generalizing afterMark after with
  | nil => rfl
  | single c s hc ih =>
    obtain ⟨hblank, hs⟩ := h
    by_cases hb : isBlank c = true
    · obtain ⟨rfl, rfl, hhead⟩ := hblank hb
      cases after with
      | true =>
        rw [spacedFrom_true_of_blank hb]
        exact ih hs true
      | false =>
        have hnext : (spacedFrom constWord false s).head?.any isMark = false := by
          rw [head?_spacedFrom_false isWord_constWord, Option.any_eq_false]
          intro d hd
          simp [(hhead d hd).2]
        rw [spacedFrom_cons isWord_constWord hc rfl, tightenFrom, if_neg (by simp [hnext]),
          spacedFrom_cons isWord_constWord hc rfl, ih hs]
    · have hb' : isBlank c = false := by simpa using hb
      have hafter : (after && isBlank c) = false := by rw [hb', Bool.and_false]
      rw [spacedFrom_cons isWord_constWord hc hafter, tightenFrom_cons_of_not_isBlank hb',
        spacedFrom_cons isWord_constWord hc hafter, ih hs]
  | word w s hne hw hs ih =>
    have hleft := h.of_word_append hne hw
    have hsame : StartsApart (spacedFrom constWord false s) := by
      rwa [StartsApart, head?_spacedFrom_false isWord_constWord]
    rw [spacedFrom_word_append hne hw hs, tightenFrom_word_append hne hw]
    split
    · have hspace : StartsApart (' ' :: spacedFrom constWord true s) :=
        startsApart_cons.2 (isWord_of_isBlank isBlank_space)
      rw [spacedFrom_word_append hne hw (startsApart_tightenFrom hspace), if_pos ‹_›]
      rcases tightenFrom_false_space_cases (spacedFrom constWord true s) with ht | ht
      · rw [ht, ih hleft]
      · rw [ht, spacedFrom_true_of_blank isBlank_space, ih hleft]
    · rw [spacedFrom_word_append hne hw (startsApart_tightenFrom hsame), if_neg ‹_›, ih hleft]

theorem normalizeChars_eq (s : List Char) : normalizeChars s =
    trim (spacedFrom constWord false (tightenFrom false (collapse s))) := rfl

theorem normalizeChars_congr {s t : List Char}
    (h : tightenFrom false (collapse s) = tightenFrom false (collapse t)) :
    normalizeChars s = normalizeChars t := by
  rw [normalizeChars_eq, h, normalizeChars_eq]

theorem normalizeChars_cons_of_blank {b : Char} (hb : isBlank b = true) (s : List Char) :
    normalizeChars (b :: s) = normalizeChars s := by
  rcases collapse_cons_cases hb s with ⟨h, -⟩ | ⟨h, -⟩
  · exact normalizeChars_congr (by rw [h])
  rcases tightenFrom_false_space_cases (collapse s) with ht | ht
  · exact normalizeChars_congr (by rw [h, ht])
  · rw [normalizeChars_eq, h, ht,
      spacedFrom_cons isWord_constWord (isWord_of_isBlank isBlank_space) rfl,
      trim_cons_of_blank isBlank_space, normalizeChars_eq]

theorem normalizeChars_of_blank {s : List Char} (h : ∀ c ∈ s, isBlank c = true) :
    normalizeChars s = [] := by
  induction s with
  | nil => rfl
  | cons c s ih =>
    obtain ⟨hc, hs⟩ := List.forall_mem_cons.1 h
    rw [normalizeChars_cons_of_blank hc, ih hs]

theorem tightenFrom_concat_space_cases (afterMark : Bool) (s : List Char) :
    tightenFrom afterMark (s ++ [' ']) = tightenFrom afterMark s ∨
      tightenFrom afterMark (s ++ [' ']) = tightenFrom afterMark s ++ [' '] := by
  induction s generalizing afterMark with
  | nil => cases afterMark <;> simp [tightenFrom]
  | cons c s ih =>
    have hnext : (s ++ [' ']).head?.any isMark = s.head?.any isMark := by
      cases s with
      | nil => rfl
      | cons d s => rfl
    rw [List.cons_append, tightenFrom, tightenFrom, hnext]
    split
    · exact ih afterMark
    · rcases ih (isMark c) with h | h
      · exact .inl (by rw [h])
      · exact .inr (by rw [h, List.cons_append])

theorem normalizeChars_concat_of_blank {b : Char} (hb : isBlank b = true) (s : List Char) :
    normalizeChars (s ++ [b]) = normalizeChars s := by
  rcases collapse_concat_cases hb s with h | ⟨h, -⟩
  · exact normalizeChars_congr (by rw [h])
  rcases tightenFrom_concat_space_cases false (collapse s) with ht | ht
  · exact normalizeChars_congr (by rw [h, ht])
  · rw [normalizeChars_eq, h, ht, spacedFrom, runs_append_cons (isWord_of_isBlank isBlank_space),
      runs_nil, normalizeChars_eq, spacedFrom]
    have hword : [' '] ≠ constWord := by decide
    rcases spaceAfterFrom_concat_blank isBlank_space hword false
      (runs (tightenFrom false (collapse s))) with hs | hs
    · rw [hs]
    · rw [hs, trim_concat_of_blank isBlank_space]

theorem normalizeChars_trim (s : List Char) : normalizeChars (trim s) = normalizeChars s :=
  apply_trim (fun _ s hb => normalizeChars_cons_of_blank hb s)
    (fun _ s hb => normalizeChars_concat_of_blank hb s) s

theorem normalize_trim (type : String) :
    normalize (String.ofList (trim type.toList)) = normalize type := by
  rw [normalize, String.toList_ofList, normalizeChars_trim, normalize]

theorem normalizeChars_normalizeChars (s : List Char) :
    normalizeChars (normalizeChars s) = normalizeChars s := by
  have htight : Tight false (tightenFrom false (collapse s)) := tight_tightenFrom false s
  rw [normalizeChars_eq s, normalizeChars_trim, normalizeChars_eq, htight.collapse_spacedFrom,
    htight.spacedFrom_tightenFrom]

theorem tightenFrom_cons_congr {s t : List Char} (hhead : s.head? = t.head?)
    (h : ∀ afterMark, tightenFrom afterMark s = tightenFrom afterMark t) (afterMark : Bool)
    (c : Char) : tightenFrom afterMark (c :: s) = tightenFrom afterMark (c :: t) := by
  rw [tightenFrom, tightenFrom, hhead, h, h]

theorem tightenFrom_append_mark {p : Char} (hp : isMark p = true) (afterMark : Bool)
    (s t : List Char) : tightenFrom afterMark (s ++ p :: t) =
      tightenFrom afterMark (s ++ [p]) ++ tightenFrom true t := by
  induction s generalizing afterMark with
  | nil =>
    have hblank := not_isBlank_of_isMark hp
    rw [List.nil_append, List.nil_append, tightenFrom_cons_of_not_isBlank hblank,
      tightenFrom_cons_of_not_isBlank hblank, hp]
    rfl
  | cons c s ih =>
    have hnext : (s ++ p :: t).head? = (s ++ [p]).head? := by
      cases s with
      | nil => rfl
      | cons d s => rfl
    rw [List.cons_append, List.cons_append, tightenFrom, tightenFrom, hnext]
    split
    · exact ih afterMark
    · rw [ih, List.cons_append]

theorem tightenFrom_concat_mark {p : Char} (hp : isMark p = true) {s : List Char}
    (hs : s.getLast? ≠ some ' ') (afterMark : Bool) :
    tightenFrom afterMark (s ++ [p]) = tightenFrom afterMark s ++ [p] := by
  have hblank := not_isBlank_of_isMark hp
  induction s generalizing afterMark with
  | nil => exact tightenFrom_cons_of_not_isBlank hblank afterMark []
  | cons c s ih =>
    cases s with
    | nil =>
      have hc : c ≠ ' ' := by simpa using hs
      simp [tightenFrom, hc, ne_space_of_not_isBlank hblank]
    | cons d s =>
      have hrest := ih (by simpa using hs)
      have hnext : (d :: s ++ [p]).head? = (d :: s).head? := rfl
      rw [List.cons_append, tightenFrom, hnext]
      split
      · next h => rw [hrest, tightenFrom.eq_2 afterMark c, if_pos h]
      · next h => rw [hrest, tightenFrom.eq_2 afterMark c, if_neg h, List.cons_append]

theorem tightenFrom_space_mark {p : Char} (hp : isMark p = true) {s : List Char}
    (hs : s.getLast? ≠ some ' ') (afterMark : Bool) :
    tightenFrom afterMark (s ++ [' '] ++ [p]) = tightenFrom afterMark (s ++ [p]) := by
  induction s generalizing afterMark with
  | nil => simp [tightenFrom, hp]
  | cons c s ih =>
    cases s with
    | nil =>
      have hc : c ≠ ' ' := by simpa using hs
      simp [tightenFrom, hc, hp]
    | cons d s =>
      have hhead : (d :: s ++ [' '] ++ [p]).head? = (d :: s ++ [p]).head? := rfl
      exact tightenFrom_cons_congr hhead (ih (by simpa using hs)) afterMark c

theorem tightenFrom_blank_mark {p b : Char} (hp : isMark p = true) (hb : isBlank b = true)
    (s : List Char) : tightenFrom false (collapse (s ++ [b]) ++ [p]) =
      tightenFrom false (collapse s ++ [p]) := by
  rcases collapse_concat_cases hb s with h | ⟨h, hlast⟩
  · rw [h]
  · rw [h, tightenFrom_space_mark hp hlast]

theorem tightenFrom_blanks_mark {p : Char} (hp : isMark p = true) (s : List Char)
    {w : List Char} (hw : ∀ c ∈ w, isBlank c = true) :
    tightenFrom false (collapse (s ++ w) ++ [p]) = tightenFrom false (collapse s ++ [p]) := by
  induction w using List.reverseRecOn with
  | nil => rw [List.append_nil]
  | append_singleton w b ih =>
    rw [← List.append_assoc, tightenFrom_blank_mark hp (hw b (by simp)),
      ih fun c hc => hw c (List.mem_append_left _ hc)]

theorem tightenFrom_mark_blanks {w : List Char} (hw : ∀ c ∈ w, isBlank c = true) (s : List Char) :
    tightenFrom true (collapse (w ++ s)) = tightenFrom true (collapse s) := by
  induction w with
  | nil => rfl
  | cons b w ih =>
    have hrest := ih fun c hc => hw c (List.mem_cons_of_mem b hc)
    rw [List.cons_append]
    rcases collapse_cons_cases (hw b List.mem_cons_self) (w ++ s) with ⟨h, -⟩ | ⟨h, -⟩
    · rw [h, hrest]
    · rw [h, tightenFrom_true_space, hrest]

theorem normalizeChars_mark {p : Char} (hp : isMark p = true) (u v : List Char)
    {w w' : List Char} (hw : ∀ c ∈ w, isBlank c = true) (hw' : ∀ c ∈ w', isBlank c = true) :
    normalizeChars (u ++ w ++ p :: (w' ++ v)) = normalizeChars (u ++ p :: v) := by
  have hblank := not_isBlank_of_isMark hp
  apply normalizeChars_congr
  rw [collapse_append_cons hblank, collapse_append_cons hblank, tightenFrom_append_mark hp,
    tightenFrom_blanks_mark hp u hw, tightenFrom_mark_blanks hw' v, ← tightenFrom_append_mark hp]

theorem normalizeChars_blanks (u v : List Char) {w w' : List Char} (hne : w ≠ []) (hne' : w' ≠ [])
    (hw : ∀ c ∈ w, isBlank c = true) (hw' : ∀ c ∈ w', isBlank c = true) :
    normalizeChars (u ++ (w ++ v)) = normalizeChars (u ++ (w' ++ v)) := by
  apply normalizeChars_congr
  have hsame : collapse (w ++ v) = collapse (w' ++ v) := by
    rw [collapse_blanks_append hne hw, collapse_blanks_append hne' hw']
  rw [collapse_append_congr hsame]

theorem withoutBlanks_tightenFrom (afterMark : Bool) (s : List Char) :
    withoutBlanks (tightenFrom afterMark s) = withoutBlanks s := by
  induction s generalizing afterMark with
  | nil => rfl
  | cons c s ih =>
    rw [tightenFrom]
    split
    · next h =>
      rw [ih, h.1]
      rfl
    · rw [← List.singleton_append, withoutBlanks_append, ih, ← withoutBlanks_append,
        List.singleton_append]

theorem withoutBlanks_normalizeChars (s : List Char) :
    withoutBlanks (normalizeChars s) = withoutBlanks s := by
  rw [normalizeChars_eq, withoutBlanks_trim, spacedFrom, withoutBlanks_spaceAfterFrom,
    flatten_runs, withoutBlanks_tightenFrom, withoutBlanks_collapse]

def IsSpace (w : String) : Prop := ∀ c ∈ w.toList, isBlank c = true

instance (w : String) : Decidable (IsSpace w) :=
  decidable_of_iff (w.toList.all isBlank = true) List.all_eq_true

theorem normalize_eq_empty_iff {type : String} : normalize type = "" ↔ IsSpace type := by
  rw [normalize, String.ofList_eq_empty_iff]
  constructor
  · intro h c hc
    have hblanks : withoutBlanks type.toList = [] := by
      rw [← withoutBlanks_normalizeChars, h]
      rfl
    simpa using List.filter_eq_nil_iff.1 hblanks c hc
  · exact normalizeChars_of_blank

/-- The canonical spelling is its own and differs from the spelling in blanks only.  It does not
see blanks next to a mark, nor which and how many blanks separate two pieces. -/
theorem normalize_canonical :
    (∀ t : String, normalize (normalize t) = normalize t ∧
      withoutBlanks (normalize t).toList = withoutBlanks t.toList) ∧
    (∀ (u v w w' : String) (p : Char), isMark p = true → IsSpace w → IsSpace w' →
      normalize (u ++ w ++ String.singleton p ++ w' ++ v) =
        normalize (u ++ String.singleton p ++ v)) ∧
    ∀ u v w w' : String, IsSpace w → IsSpace w' → w ≠ "" → w' ≠ "" →
      normalize (u ++ w ++ v) = normalize (u ++ w' ++ v) := by
  refine ⟨fun t => ⟨?_, ?_⟩, ?_, ?_⟩
  · rw [normalize, normalize, String.toList_ofList, normalizeChars_normalizeChars]
  · rw [normalize, String.toList_ofList, withoutBlanks_normalizeChars]
  · intro u v w w' p hp hw hw'
    have hmark := congrArg String.ofList (normalizeChars_mark hp u.toList v.toList hw hw')
    simpa [normalize] using hmark
  · intro u v w w' hw hw' hne hne'
    have hblanks := congrArg String.ofList (normalizeChars_blanks u.toList v.toList
      (by simpa using hne) (by simpa using hne') hw hw')
    simpa [normalize] using hblanks

theorem normalize_canonical_constPointer :
    normalize (normalize "char\tconst *") = normalize "char\tconst *" ∧
    IsSpace "" ∧ IsSpace "\u2003\n" ∧
    normalize ("char const" ++ "" ++ String.singleton '*' ++ "\u2003\n" ++ "const") =
      normalize ("char const" ++ String.singleton '*' ++ "const") ∧
    IsSpace " " ∧ normalize ("unsigned" ++ "\u2003\n" ++ "int") =
      normalize ("unsigned" ++ " " ++ "int") := by
  have hnone : IsSpace "" := by decide
  have hwide : IsSpace "\u2003\n" := by decide
  have hone : IsSpace " " := by decide
  exact ⟨(normalize_canonical.1 _).1, hnone, hwide,
    normalize_canonical.2.1 _ _ _ _ _ (by decide) hnone hwide, hone,
    normalize_canonical.2.2 _ _ _ _ hwide hone (by decide) (by decide)⟩

example : normalize "char\tconst *" = "char const *" := by decide +kernel

end WasmBindings.Spelling
