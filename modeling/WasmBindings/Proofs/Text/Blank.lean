import Mathlib.Data.List.Induction
import Mathlib.Data.List.TakeWhile
import WasmBindings.Text.Blank

namespace WasmBindings.Text

theorem trimStart_append {lead : List Char} (h : ∀ c ∈ lead, isBlank c = true) (s : List Char) :
    trimStart (lead ++ s) = trimStart s :=
  List.dropWhile_append_of_pos h

theorem trimEnd_append {tail : List Char} (h : ∀ c ∈ tail, isBlank c = true) (s : List Char) :
    trimEnd (s ++ tail) = trimEnd s := by
  have hr : ∀ c ∈ tail.reverse, isBlank c = true := fun c hc => h c (List.mem_reverse.1 hc)
  rw [trimEnd, List.reverse_append, List.dropWhile_append_of_pos hr, trimEnd]

theorem trimStart_of_head? {s : List Char} {c : Char} (hs : s.head? = some c)
    (hc : isBlank c = false) : trimStart s = s := by
  obtain ⟨r, rfl⟩ := List.head?_eq_some_iff.1 hs
  exact List.dropWhile_cons_of_neg (by simp [hc])

theorem trimEnd_of_getLast? {s : List Char} {c : Char} (hs : s.getLast? = some c)
    (hc : isBlank c = false) : trimEnd s = s := by
  rw [← List.head?_reverse] at hs
  have hr : s.reverse.dropWhile isBlank = s.reverse := trimStart_of_head? hs hc
  rw [trimEnd, hr, List.reverse_reverse]

theorem trimStart_of_blank {s : List Char} (h : ∀ c ∈ s, isBlank c = true) : trimStart s = [] := by
  rw [← List.append_nil s, trimStart_append h, trimStart_nil]

theorem trim_append_append {lead tail : List Char} (hl : ∀ c ∈ lead, isBlank c = true)
    (ht : ∀ c ∈ tail, isBlank c = true) (s : List Char) : trim (lead ++ (s ++ tail)) = trim s := by
  rw [trim, trimStart_append hl, trim]
  have hst : trimStart (s ++ tail) =
      if (trimStart s).isEmpty then trimStart tail else trimStart s ++ tail :=
    List.dropWhile_append
  rw [hst]
  split
  · next hs => rw [trimStart_of_blank ht, List.isEmpty_iff.1 hs]
  · exact trimEnd_append ht _

theorem trim_cons_of_blank {b : Char} (hb : isBlank b = true) (s : List Char) :
    trim (b :: s) = trim s := by
  have hblank : ∀ c ∈ [b], isBlank c = true := by simpa using hb
  have hcut := trim_append_append hblank (List.forall_mem_nil _) s
  rwa [List.append_nil, List.singleton_append] at hcut

theorem trim_concat_of_blank {b : Char} (hb : isBlank b = true) (s : List Char) :
    trim (s ++ [b]) = trim s := by
  have hblank : ∀ c ∈ [b], isBlank c = true := by simpa using hb
  exact trim_append_append (List.forall_mem_nil _) hblank s

theorem trim_of_ends {s : List Char} {c d : Char} (hs : s.head? = some c)
    (hc : isBlank c = false) (he : s.getLast? = some d) (hd : isBlank d = false) : trim s = s := by
  rw [trim, trimStart_of_head? hs hc, trimEnd_of_getLast? he hd]

theorem trim_of_not_blank {s : List Char} (h : ∀ c ∈ s, isBlank c = false) : trim s = s := by
  cases s with
  | nil => rfl
  | cons c s =>
    have hne := List.cons_ne_nil c s
    apply trim_of_ends rfl (h c List.mem_cons_self) (List.getLast?_eq_some_getLast hne)
    exact h _ (List.getLast_mem hne)

theorem exists_trimEnd (s : List Char) :
    ∃ tail, (∀ c ∈ tail, isBlank c = true) ∧ s = trimEnd s ++ tail := by
  refine ⟨(s.reverse.takeWhile isBlank).reverse, fun c hc => ?_, ?_⟩
  · exact List.mem_takeWhile_imp (List.mem_reverse.1 hc)
  · rw [trimEnd, ← List.reverse_append, List.takeWhile_append_dropWhile, List.reverse_reverse]

theorem exists_trim (s : List Char) : ∃ lead tail, (∀ c ∈ lead, isBlank c = true) ∧
    (∀ c ∈ tail, isBlank c = true) ∧ s = lead ++ (trim s ++ tail) := by
  obtain ⟨tail, ht, hs⟩ := exists_trimEnd (trimStart s)
  refine ⟨s.takeWhile isBlank, tail, fun c hc => List.mem_takeWhile_imp hc, ht, ?_⟩
  rw [trim, ← hs, trimStart, List.takeWhile_append_dropWhile]

theorem apply_trim {α : Type} {f : List Char → α}
    (hcons : ∀ b s, isBlank b = true → f (b :: s) = f s)
    (hconcat : ∀ b s, isBlank b = true → f (s ++ [b]) = f s) (s : List Char) :
    f (trim s) = f s := by
  obtain ⟨lead, tail, hl, ht, hs⟩ := exists_trim s
  have htail : f (trim s ++ tail) = f (trim s) := by
    clear hs
    induction tail using List.reverseRecOn with
    | nil => rw [List.append_nil]
    | append_singleton tail b ih =>
      rw [← List.append_assoc, hconcat b _ (ht b (by simp)),
        ih fun c hc => ht c (List.mem_append_left _ hc)]
  have hlead : f (lead ++ (trim s ++ tail)) = f (trim s ++ tail) := by
    clear hs
    induction lead with
    | nil => rfl
    | cons b lead ih =>
      rw [List.cons_append, hcons b _ (hl b List.mem_cons_self),
        ih fun c hc => hl c (List.mem_cons_of_mem b hc)]
  rw [← htail, ← hlead, ← hs]

theorem trim_filter_trim (p : Char → Bool) (s : List Char) :
    trim ((trim s).filter p) = trim (s.filter p) := by
  obtain ⟨lead, tail, hl, ht, hs⟩ := exists_trim s
  have hl' : ∀ c ∈ lead.filter p, isBlank c = true := fun c hc => hl c (List.mem_filter.1 hc).1
  have ht' : ∀ c ∈ tail.filter p, isBlank c = true := fun c hc => ht c (List.mem_filter.1 hc).1
  have hf : s.filter p = lead.filter p ++ ((trim s).filter p ++ tail.filter p) := by
    rw [← List.filter_append, ← List.filter_append, ← hs]
  rw [hf, trim_append_append hl' ht']

theorem withoutBlanks_trimStart (s : List Char) : withoutBlanks (trimStart s) = withoutBlanks s := by
  induction s with
  | nil => rfl
  | cons c r ih =>
    rw [trimStart, List.dropWhile_cons]
    split
    · next h => simpa [withoutBlanks, trimStart, h] using ih
    · rfl

theorem withoutBlanks_trimEnd (s : List Char) : withoutBlanks (trimEnd s) = withoutBlanks s := by
  have h := withoutBlanks_trimStart s.reverse
  simp only [withoutBlanks, trimStart, List.filter_reverse] at h
  rw [trimEnd, withoutBlanks, List.filter_reverse, h, List.reverse_reverse, withoutBlanks]

@[simp] theorem withoutBlanks_trim (s : List Char) : withoutBlanks (trim s) = withoutBlanks s := by
  rw [trim, withoutBlanks_trimEnd, withoutBlanks_trimStart]

@[simp] theorem withoutBlanks_collapse (s : List Char) :
    withoutBlanks (collapse s) = withoutBlanks s := by
  induction s with
  | nil => rfl
  | cons c r ih =>
    rw [collapse]
    split
    · next hc =>
      split
      · next t ht => simpa [withoutBlanks, hc, ht] using ih
      · simpa [withoutBlanks, hc] using ih
    · next hc => simpa [withoutBlanks, hc] using ih

theorem collapse_append_cons {c : Char} (hc : isBlank c = false) (s t : List Char) :
    collapse (s ++ c :: t) = collapse s ++ c :: collapse t := by
  have hspace : c ≠ ' ' := by
    rintro rfl
    simp at hc
  induction s with
  | nil => exact collapse_cons_of_not_blank hc t
  | cons d s ih =>
    rw [List.cons_append, collapse, ih, collapse]
    split
    · rcases collapse s with _ | ⟨e, r⟩
      · simp [hspace]
      · by_cases he : e = ' '
        · simp [he]
        · simp [he]
    · rfl

theorem mem_of_mem_collapse {s : List Char} {c : Char} (h : c ∈ collapse s) : c = ' ' ∨ c ∈ s := by
  induction s with
  | nil => cases h
  | cons d s ih =>
    rw [collapse] at h
    split at h
    · split at h
      · next t ht =>
        rw [ht] at ih
        exact (ih h).imp_right (List.mem_cons_of_mem d)
      · rcases List.mem_cons.1 h with rfl | h
        · exact .inl rfl
        · exact (ih h).imp_right (List.mem_cons_of_mem d)
    · rcases List.mem_cons.1 h with rfl | h
      · exact .inr List.mem_cons_self
      · exact (ih h).imp_right (List.mem_cons_of_mem d)

theorem collapse_append_of_not_blank {s : List Char} (h : ∀ c ∈ s, isBlank c = false)
    (t : List Char) : collapse (s ++ t) = s ++ collapse t := by
  induction s with
  | nil => rfl
  | cons c r ih =>
    rw [List.cons_append, collapse_cons_of_not_blank (h c List.mem_cons_self),
      ih fun d hd => h d (List.mem_cons_of_mem c hd), List.cons_append]

theorem collapse_cons_cases {b : Char} (hb : isBlank b = true) (s : List Char) :
    (collapse (b :: s) = collapse s ∧ (collapse s).head? = some ' ') ∨
      (collapse (b :: s) = ' ' :: collapse s ∧ (collapse s).head? ≠ some ' ') := by
  rw [collapse, if_pos hb]
  split
  · next t ht => exact .inl ⟨ht.symm, by rw [ht]; rfl⟩
  · next hne =>
    refine .inr ⟨rfl, ?_⟩
    intro hhead
    obtain ⟨t, ht⟩ := List.head?_eq_some_iff.1 hhead
    exact hne t ht

theorem collapse_append_congr {s t : List Char} (h : collapse s = collapse t) (u : List Char) :
    collapse (u ++ s) = collapse (u ++ t) := by
  induction u with
  | nil => exact h
  | cons c u ih => rw [List.cons_append, List.cons_append, collapse, collapse, ih]

theorem head?_collapse_of_blank {b : Char} (hb : isBlank b = true) (s : List Char) :
    (collapse (b :: s)).head? = some ' ' := by
  rcases collapse_cons_cases hb s with ⟨h, hhead⟩ | ⟨h, -⟩
  · rwa [h]
  · rw [h, List.head?_cons]

theorem collapse_blanks_append {w : List Char} (hne : w ≠ []) (hw : ∀ c ∈ w, isBlank c = true)
    (s : List Char) : collapse (w ++ s) = collapse (' ' :: s) := by
  induction w with
  | nil => exact absurd rfl hne
  | cons b w ih =>
    have hb := hw b List.mem_cons_self
    cases w with
    | nil => simp [collapse, hb]
    | cons b' w =>
      have hb' := hw b' (List.mem_cons_of_mem b List.mem_cons_self)
      have hrest := ih (List.cons_ne_nil b' w) fun c hc => hw c (List.mem_cons_of_mem b hc)
      rcases collapse_cons_cases hb (b' :: w ++ s) with ⟨h, -⟩ | ⟨-, hhead⟩
      · exact h.trans hrest
      · exact absurd (head?_collapse_of_blank hb' (w ++ s)) hhead

theorem collapse_space_cons {s : List Char} (h : ∀ c ∈ s.head?, isBlank c = false) :
    collapse (' ' :: s) = ' ' :: collapse s := by
  rcases collapse_cons_cases isBlank_space s with ⟨-, hhead⟩ | ⟨heq, -⟩
  · cases s with
    | nil => cases hhead
    | cons c r =>
      have hc := h c rfl
      rw [collapse_cons_of_not_blank hc] at hhead
      cases hhead
      cases hc
  · exact heq

theorem head?_collapse {s : List Char} {c : Char} (h : (collapse s).head? = some c) :
    c = ' ' ∨ isBlank c = false := by
  cases s with
  | nil => cases h
  | cons d r =>
    by_cases hd : isBlank d = true
    · rw [head?_collapse_of_blank hd] at h
      exact .inl (Option.some.inj h).symm
    · have hd' : isBlank d = false := by simpa using hd
      rw [collapse_cons_of_not_blank hd'] at h
      cases h
      exact .inr hd'

theorem collapse_concat_cases {b : Char} (hb : isBlank b = true) (s : List Char) :
    collapse (s ++ [b]) = collapse s ∨
      (collapse (s ++ [b]) = collapse s ++ [' '] ∧ (collapse s).getLast? ≠ some ' ') := by
  induction s with
  | nil => exact .inr ⟨by simp [collapse, hb], by simp [collapse]⟩
  | cons c s ih =>
    rw [List.cons_append, collapse, collapse]
    split
    · rcases ih with ih | ⟨ih, hlast⟩
      · exact .inl (by rw [ih])
      · rw [ih]
        cases hs : collapse s with
        | nil => exact .inl rfl
        | cons d t =>
          rw [hs] at hlast
          by_cases hd : d = ' '
          · subst hd
            exact .inr ⟨rfl, hlast⟩
          · exact .inr ⟨by simp [hd], by simpa [hd] using hlast⟩
    · next hc =>
      have hspace : c ≠ ' ' := by
        rintro rfl
        simp at hc
      rcases ih with ih | ⟨ih, hlast⟩
      · exact .inl (by rw [ih])
      · refine .inr ⟨by rw [ih, List.cons_append], ?_⟩
        cases hs : collapse s with
        | nil => simpa using hspace
        | cons d t =>
          rw [hs] at hlast
          simpa using hlast

theorem squeeze_cons_of_blank {b : Char} (hb : isBlank b = true) (s : List Char) :
    squeeze (b :: s) = squeeze s := by
  rcases collapse_cons_cases hb s with ⟨h, -⟩ | ⟨h, -⟩
  · rw [squeeze, h, squeeze]
  · rw [squeeze, h, trim_cons_of_blank isBlank_space, squeeze]

theorem squeeze_concat_of_blank {b : Char} (hb : isBlank b = true) (s : List Char) :
    squeeze (s ++ [b]) = squeeze s := by
  rcases collapse_concat_cases hb s with h | ⟨h, -⟩
  · rw [squeeze, h, squeeze]
  · rw [squeeze, h, trim_concat_of_blank isBlank_space, squeeze]

theorem trimEnd_append_cons {c : Char} (hc : isBlank c = false) (s t : List Char) :
    trimEnd (s ++ c :: t) = s ++ c :: trimEnd t := by
  have hr : (s ++ c :: t).reverse = t.reverse ++ (c :: s.reverse) := by simp
  rw [trimEnd, hr, List.dropWhile_append, trimEnd]
  split
  · next h =>
    have ht : t.reverse.dropWhile isBlank = [] := List.isEmpty_iff.1 h
    simp [ht, hc]
  · simp

theorem trimEnd_cons_of_blank {b : Char} (hb : isBlank b = true) (s : List Char) :
    trimEnd (b :: s) = if trimEnd s = [] then [] else b :: trimEnd s := by
  rw [trimEnd, List.reverse_cons, List.dropWhile_append, trimEnd]
  split
  · next h =>
    have hs : s.reverse.dropWhile isBlank = [] := List.isEmpty_iff.1 h
    simp [hs, hb]
  · next h =>
    have hs : s.reverse.dropWhile isBlank ≠ [] := fun he => h (List.isEmpty_iff.2 he)
    simp [hs]

theorem trimEnd_concat {c : Char} (hc : isBlank c = false) (s : List Char) :
    trimEnd (s ++ [c]) = s ++ [c] :=
  trimEnd_append_cons hc s []

theorem exists_trim_concat {c : Char} (hc : isBlank c = false) (s : List Char) :
    ∃ gap, (∀ b ∈ gap, isBlank b = true) ∧ trim (s ++ [c]) = trim s ++ (gap ++ [c]) := by
  obtain ⟨gap, hgap, hs⟩ := exists_trimEnd (trimStart s)
  have hstart : trimStart (s ++ [c]) = trimStart s ++ [c] := by
    rw [trimStart, List.dropWhile_append, trimStart]
    split
    · next hnil => rw [List.isEmpty_iff.1 hnil, List.dropWhile_cons_of_neg (by simp [hc]),
        List.nil_append]
    · rfl
  refine ⟨gap, hgap, ?_⟩
  rw [trim, hstart, trimEnd_concat hc, trim, ← List.append_assoc, ← hs]

theorem not_isBlank_of_getLast?_trim {s : List Char} {c : Char} (h : (trim s).getLast? = some c) :
    isBlank c = false := by
  have hhead := List.head?_dropWhile_not isBlank (trimStart s).reverse
  rw [trim, trimEnd, List.getLast?_reverse] at h
  rw [h] at hhead
  exact hhead

theorem isPrefix_trimEnd (s : List Char) : trimEnd s <+: s := by
  rw [← List.reverse_suffix, trimEnd, List.reverse_reverse]
  exact List.dropWhile_suffix isBlank

theorem mem_of_mem_trimEnd {s : List Char} {c : Char} (h : c ∈ trimEnd s) : c ∈ s := by
  rw [trimEnd, List.mem_reverse] at h
  exact List.mem_reverse.1 ((List.dropWhile_suffix isBlank).subset h)

end WasmBindings.Text
