import WasmBindings.Proofs.Cpp.EnumKey
import WasmBindings.Proofs.Cpp.Normal

namespace WasmBindings

namespace Text

def tokens (s : List Char) : List (List Char) := (runs s).filter fun w => !isBlankRun w

@[simp] theorem tokens_nil : tokens [] = [] := rfl

theorem tokens_append_cons {c : Char} (hc : isWord c = false) (s t : List Char) :
    tokens (s ++ c :: t) = tokens s ++ (if isBlank c then tokens t else [c] :: tokens t) := by
  rw [tokens, runs_append_cons hc, List.filter_append, List.filter_cons, isBlankRun_singleton]
  cases isBlank c <;> rfl

theorem tokens_cons {c : Char} (hc : isWord c = false) (s : List Char) :
    tokens (c :: s) = if isBlank c then tokens s else [c] :: tokens s :=
  tokens_append_cons hc [] s

theorem tokens_cons_of_blank {b : Char} (hb : isBlank b = true) (s : List Char) :
    tokens (b :: s) = tokens s := by
  rw [tokens_cons (isWord_of_isBlank hb), if_pos hb]

theorem tokens_concat_of_blank {b : Char} (hb : isBlank b = true) (s : List Char) :
    tokens (s ++ [b]) = tokens s := by
  rw [tokens_append_cons (isWord_of_isBlank hb), if_pos hb, tokens_nil, List.append_nil]

theorem tokens_word_append {w s : List Char} (hne : w ≠ []) (hw : ∀ c ∈ w, isWord c = true)
    (hs : StartsApart s) : tokens (w ++ s) = w :: tokens s := by
  rw [tokens, runs_word_append hne hw hs, List.filter_cons, isBlankRun_of_word hne hw]
  rfl

theorem tokens_trim (s : List Char) : tokens (trim s) = tokens s :=
  apply_trim (fun _ s hb => tokens_cons_of_blank hb s) (fun _ s hb => tokens_concat_of_blank hb s) s

theorem tokens_collapse (s : List Char) : tokens (collapse s) = tokens s := by
  induction s using runs_induction with
  | nil => rfl
  | single c s hc ih =>
    cases hb : isBlank c with
    | true =>
      rw [tokens_cons_of_blank hb, ← ih]
      rcases collapse_cons_cases hb s with ⟨h, -⟩ | ⟨h, -⟩
      · rw [h]
      · rw [h, tokens_cons_of_blank isBlank_space]
    | false => rw [collapse_cons_of_not_blank hb, tokens_cons hc, tokens_cons hc, ih]
  | word w s hne hw hs ih =>
    rw [collapse_append_of_not_blank fun c hc => isBlank_of_isWord (hw c hc),
      tokens_word_append hne hw (Spelling.startsApart_collapse hs), ih,
      tokens_word_append hne hw hs]

theorem tokens_spacedFrom {word : List Char} (hword : ∀ c ∈ word, isWord c = true) (after : Bool)
    (s : List Char) : tokens (spacedFrom word after s) = tokens s := by
  induction s using runs_induction generalizing after with
  | nil => rfl
  | single c s hc ih =>
    cases hskip : after && isBlank c with
    | true =>
      rw [Bool.and_eq_true] at hskip
      rw [hskip.1, spacedFrom_true_of_blank hskip.2, ih, tokens_cons_of_blank hskip.2]
    | false => rw [spacedFrom_cons hword hc hskip, tokens_cons hc, ih, tokens_cons hc]
  | word w s hne hw hs ih =>
    have hspace : StartsApart (' ' :: spacedFrom word true s) :=
      startsApart_cons.2 (isWord_of_isBlank isBlank_space)
    have hsame : StartsApart (spacedFrom word false s) := by
      rwa [StartsApart, head?_spacedFrom_false hword]
    rw [spacedFrom_word_append hne hw hs, tokens_word_append hne hw hs]
    split
    · rw [tokens_word_append hne hw hspace, tokens_cons_of_blank isBlank_space, ih]
    · rw [tokens_word_append hne hw hsame, ih]

theorem getLast?_runs_trim (s : List Char) :
    (runs (trim s)).getLast? = (tokens s).getLast? := by
  rw [← tokens_trim]
  rcases List.eq_nil_or_concat (runs (trim s)) with hnil | ⟨ws, w, hruns⟩
  · rw [tokens, hnil, List.filter_nil]
  · have hne : w ≠ [] := ne_nil_of_mem_runs (s := trim s) (by simp [hruns])
    have hlast : (trim s).getLast? = some (w.getLast hne) := by
      rw [← flatten_runs (trim s), hruns, List.concat_eq_append, List.flatten_concat,
        List.getLast?_append, List.getLast?_eq_some_getLast hne, Option.some_or]
    have hblank : isBlankRun w = false := List.all_eq_false.2
      ⟨_, List.getLast_mem hne, by simp [not_isBlank_of_getLast?_trim hlast]⟩
    have hkept : [w].filter (fun v => !isBlankRun v) = [w] := by simp [hblank]
    rw [tokens, hruns, List.concat_eq_append, List.filter_append, hkept, List.getLast?_concat,
      List.getLast?_concat]

end Text

namespace Spelling

open Text

theorem tokens_tightenFrom (afterMark : Bool) (s : List Char) :
    tokens (tightenFrom afterMark s) = tokens s := by
  induction s using runs_induction generalizing afterMark with
  | nil => rfl
  | single c s hc ih =>
    rw [tightenFrom]
    split
    · next hdropped => rw [hdropped.1, ih, tokens_cons_of_blank isBlank_space]
    · rw [tokens_cons hc, ih, tokens_cons hc]
  | word w s hne hw hs ih =>
    rw [tightenFrom_word_append hne hw, tokens_word_append hne hw (startsApart_tightenFrom hs), ih,
      tokens_word_append hne hw hs]

theorem tokens_normalizeChars (s : List Char) : tokens (normalizeChars s) = tokens s := by
  rw [normalizeChars_eq, tokens_trim, tokens_spacedFrom isWord_constWord, tokens_tightenFrom,
    tokens_collapse]

theorem tokens_removeWords (s : List Char) : tokens (removeWords qualifierWords s) =
    (tokens s).filter fun w => !qualifierWords.contains w := by
  induction s using runs_induction with
  | nil => rfl
  | single c s hc ih =>
    have hcut := removeWords_append_cons hc (singleton_not_mem_qualifierWords c) [] s
    rw [List.nil_append] at hcut
    rw [hcut, tokens_append_cons hc, tokens_cons hc, ih]
    cases isBlank c with
    | true => rfl
    | false => simp [removeWords, singleton_not_mem_qualifierWords]
  | word w s hne hw hs ih =>
    have hleft := startsApart_removeWords hs
    rw [removeWords_word_append hne hw hs, tokens_word_append hne hw hs, List.filter_cons]
    split
    · next hqualifier => simp [hqualifier, ih]
    · next hfree => simp [hfree, tokens_word_append hne hw hleft, ih]

theorem getLast?_runs_stripQualifiersChars (s : List Char) :
    (runs (stripQualifiersChars s)).getLast? =
      ((tokens s).filter fun w => !qualifierWords.contains w).getLast? := by
  rw [stripQualifiersChars, squeeze, getLast?_runs_trim, tokens_collapse, tokens_removeWords]

end Spelling

end WasmBindings
