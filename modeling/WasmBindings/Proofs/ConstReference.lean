import WasmBindings.Proofs.Cpp.Tokens
import WasmBindings.Proofs.TemplateArgument

namespace WasmBindings

open Text

namespace Spelling

def constReference (type : String) : String := "const " ++ type ++ "&"

/-- The last word of the text is `enum`, and it stands at the end. -/
def EndsInEnum (s : String) : Prop := (runs s.toList).getLast? = some enumWord

instance (s : String) : Decidable (EndsInEnum s) :=
  inferInstanceAs (Decidable ((runs s.toList).getLast? = some enumWord))

theorem toList_constReference (type : String) :
    (constReference type).toList = constWord ++ ' ' :: (type.toList ++ ['&']) := by
  rw [constReference, String.toList_append, String.toList_append, List.append_assoc]
  rfl

theorem stripQualifiersChars_trim (s : List Char) :
    stripQualifiersChars (trim s) = stripQualifiersChars s := by
  apply apply_trim
  · intro b s hb
    rw [stripQualifiersChars, removeWords_gap (isGap_of_isBlank hb), squeeze_cons_of_blank hb,
      stripQualifiersChars]
  · intro b s hb
    rw [stripQualifiersChars, removeWords_append_cons (isWord_of_isBlank hb)
      (singleton_not_mem_qualifierWords b), stripQualifiersChars]
    exact squeeze_concat_of_blank hb _

theorem stripQualifiersChars_const (s : List Char) :
    stripQualifiersChars (constWord ++ ' ' :: s) = stripQualifiersChars s := by
  have hword : removeWords qualifierWords constWord = [] := by decide
  rw [stripQualifiersChars, removeWords_append_cons (isWord_of_isBlank isBlank_space)
    (singleton_not_mem_qualifierWords ' '), hword, List.nil_append,
    squeeze_cons_of_blank isBlank_space, stripQualifiersChars]

theorem exists_stripQualifiersChars_reference (s : List Char) :
    ∃ gap, (∀ b ∈ gap, isBlank b = true) ∧
      stripQualifiersChars (s ++ ['&']) = stripQualifiersChars s ++ (gap ++ ['&']) := by
  have hblank : isBlank '&' = false := by decide
  rw [stripQualifiersChars, removeWords_append_cons (by decide)
    (singleton_not_mem_qualifierWords '&'), squeeze, collapse_append_cons hblank]
  exact exists_trim_concat hblank _

theorem bareChars_constReference (type : String) :
    bareChars (constReference type).toList = bareChars type.toList := by
  have hbare := congrArg String.toList (bare_reference type)
  rw [toList_bare, toList_bare, toList_reference] at hbare
  rw [← hbare, toList_constReference, bareChars, stripQualifiersChars_const, bareChars]

theorem runs_append_gaps {tail : List Char} (h : ∀ c ∈ tail, isGap c = true) (s : List Char) :
    runs (s ++ tail) = runs s ++ tail.map fun c => [c] := by
  induction tail generalizing s with
  | nil => rw [List.append_nil, List.map_nil, List.append_nil]
  | cons c tail ih =>
    have hc := not_isWord_of_isGap (h c List.mem_cons_self)
    have hrest := ih (fun d hd => h d (List.mem_cons_of_mem c hd)) []
    rw [List.nil_append, runs_nil, List.nil_append] at hrest
    rw [runs_append_cons hc, hrest, List.map_cons]

theorem solid_dropTagsFrom_append_gaps {tail : List Char} (h : ∀ c ∈ tail, isGap c = true)
    {ws : List (List Char)} (hlast : ws.getLast? ≠ some enumWord) (skipping : Bool) :
    solid (dropTagsFrom [enumWord] skipping (ws ++ tail.map fun c => [c])) =
      solid (dropTagsFrom [enumWord] skipping ws) := by
  induction ws generalizing skipping with
  | nil =>
    apply solid_of_gaps
    intro c hc
    have hmem := mem_flatten_of_mem_dropTagsFrom hc
    exact h c (by simpa using hmem)
  | cons w ws ih =>
    have hleft : ws.getLast? ≠ some enumWord := by
      cases ws with
      | nil => simp
      | cons v ws => rwa [List.getLast?_cons_cons] at hlast
    have hnext : ([enumWord].contains w && blankNext (ws ++ tail.map fun c => [c])) =
        ([enumWord].contains w && blankNext ws) := by
      cases ws with
      | nil =>
        have hw : w ≠ enumWord := by simpa using hlast
        simp [hw]
      | cons v ws => rfl
    rw [List.cons_append, dropTagsFrom, dropTagsFrom, hnext]
    split
    · exact ih hleft true
    · split
      · exact ih hleft true
      · rw [solid_append, ih hleft, solid_append]

theorem enumKey_constReference {type : String} (h : ¬EndsInEnum (stripQualifiers type)) :
    enumKey (constReference type) = enumKey type := by
  obtain ⟨gap, hgap, hstrip⟩ := exists_stripQualifiersChars_reference type.toList
  have hgaps : ∀ c ∈ gap ++ ['&'], isGap c = true := by
    intro c hc
    rcases List.mem_append.1 hc with hc | hc
    · exact isGap_of_isBlank (hgap c hc)
    · rw [List.mem_singleton.1 hc]
      rfl
  rw [EndsInEnum, stripQualifiers, String.toList_ofList] at h
  rw [enumKey, toList_constReference, stripQualifiersChars_const, hstrip, dropTags,
    runs_append_gaps hgaps]
  exact congrArg String.ofList (solid_dropTagsFrom_append_gaps hgaps h false)

example : enumKey "enum const" = "enum" ∧ enumKey (constReference "enum const") = "" := by decide

theorem tests_of_bareChars {s t : String} (h : bareChars s.toList = bareChars t.toList) :
    isBool s = isBool t ∧ isNumeric s = isNumeric t ∧ isText s = isText t ∧
      isTextList s = isTextList t ∧ ∀ pathTypes, isPath pathTypes s = isPath pathTypes t := by
  have hbare : bare s = bare t := congrArg String.ofList h
  simp only [isBool, isNumeric, isText, isTextList, isPath, hbare, h, implies_true, and_self]

theorem trim_spacedFrom_true (s : List Char) :
    trim (spacedFrom constWord true s) = trim (spacedFrom constWord false s) := by
  induction s using runs_induction with
  | nil => rfl
  | single c s hc ih =>
    cases hb : isBlank c with
    | true =>
      rw [spacedFrom_true_of_blank hb, ih, spacedFrom_cons isWord_constWord hc rfl,
        trim_cons_of_blank hb]
    | false =>
      rw [spacedFrom_cons isWord_constWord hc (by rw [hb, Bool.and_false]),
        spacedFrom_cons isWord_constWord hc rfl]
  | word w s hne hw hs _ => rw [spacedFrom_word_append hne hw hs, spacedFrom_word_append hne hw hs]

theorem spacedFrom_true_space (s : List Char) :
    spacedFrom constWord true (tightenFrom false (collapse (' ' :: s))) =
      spacedFrom constWord true (tightenFrom false (collapse s)) := by
  rcases collapse_cons_cases isBlank_space s with ⟨h, -⟩ | ⟨h, -⟩
  · rw [h]
  rcases tightenFrom_false_space_cases (collapse s) with ht | ht
  · rw [h, ht]
  · rw [h, ht, spacedFrom_true_of_blank isBlank_space]

theorem getLast?_collapse_trim (s : List Char) : (collapse (trim s)).getLast? ≠ some ' ' := by
  intro hlast
  rcases List.eq_nil_or_concat (trim s) with hnil | ⟨u, c, hu⟩
  · rw [hnil] at hlast
    cases hlast
  · rw [List.concat_eq_append] at hu
    have hc : isBlank c = false := not_isBlank_of_getLast?_trim (by rw [hu, List.getLast?_concat])
    rw [hu, collapse_append_cons hc, List.getLast?_append] at hlast
    exact ne_space_of_not_isBlank hc (Option.some.inj hlast)

theorem normalizeChars_constReference (s : List Char) :
    normalizeChars (constWord ++ ' ' :: (trim s ++ ['&'])) = constWord ++
      ' ' :: (spacedFrom constWord true (tightenFrom false (collapse (trim s))) ++ ['&']) := by
  have hne : constWord ≠ [] := by decide
  have hblank : isBlank '&' = false := by decide
  have happart : StartsApart (' ' :: (trim s ++ ['&'])) :=
    startsApart_cons.2 (isWord_of_isBlank isBlank_space)
  have hword : ['&'] ≠ constWord := by decide
  rw [normalizeChars_eq,
    collapse_append_of_not_blank fun c hc => isBlank_of_isWord (isWord_constWord c hc),
    tightenFrom_word_append hne isWord_constWord,
    spacedFrom_word_append hne isWord_constWord
      (startsApart_tightenFrom (startsApart_collapse happart)),
    if_pos rfl, spacedFrom_true_space, collapse_append_cons hblank,
    show collapse [] = [] from rfl, tightenFrom_concat_mark (by decide) (getLast?_collapse_trim s),
    spacedFrom, runs_append_cons (by decide), runs_nil, spaceAfterFrom_concat hblank hword,
    ← spacedFrom]
  apply trim_of_ends rfl (by decide) _ hblank
  rw [List.getLast?_append, List.getLast?_cons, List.getLast?_concat]
  rfl

theorem normalizeChars_constReference_trim (s : List Char) :
    normalizeChars (constWord ++ ' ' :: (trim s ++ ['&'])) =
      normalizeChars (constWord ++ ' ' :: (s ++ ['&'])) := by
  have hcons : ∀ b s, isBlank b = true → normalizeChars (constWord ++ ' ' :: (b :: s ++ ['&'])) =
      normalizeChars (constWord ++ ' ' :: (s ++ ['&'])) := by
    intro b s hb
    have hlead : ∀ c ∈ [' ', b], isBlank c = true := by simpa using hb
    have hspace : ∀ c ∈ [' '], isBlank c = true := by simp
    have hblanks := normalizeChars_blanks constWord (s ++ ['&']) (List.cons_ne_nil ' ' [b])
      (List.cons_ne_nil ' ' []) hlead hspace
    simp only [List.cons_append, List.nil_append] at hblanks ⊢
    exact hblanks
  have hconcat : ∀ b s, isBlank b = true →
      normalizeChars (constWord ++ ' ' :: (s ++ [b] ++ ['&'])) =
        normalizeChars (constWord ++ ' ' :: (s ++ ['&'])) := by
    intro b s hb
    have hgap : ∀ c ∈ [b], isBlank c = true := by simpa using hb
    have hmark := normalizeChars_mark (p := '&') (by decide) (constWord ++ ' ' :: s) [] hgap
      (List.forall_mem_nil _)
    simp only [List.append_assoc, List.cons_append, List.nil_append] at hmark ⊢
    exact hmark
  exact apply_trim (f := fun s => normalizeChars (constWord ++ ' ' :: (s ++ ['&']))) hcons hconcat s

theorem exists_normalize_constReference (type : String) : ∃ e,
    normalize (constReference type) = constReference e ∧
      normalize type = String.ofList (trim e.toList) := by
  let tidy := tightenFrom false (collapse (trim type.toList))
  refine ⟨String.ofList (spacedFrom constWord true tidy), ?_, ?_⟩
  · rw [normalize, toList_constReference, ← normalizeChars_constReference_trim,
      normalizeChars_constReference, ← String.toList_inj, toList_constReference,
      String.toList_ofList, String.toList_ofList]
  · rw [normalize, ← normalizeChars_trim, normalizeChars_eq, String.toList_ofList,
      trim_spacedFrom_true]

theorem bareChars_trim (s : List Char) : bareChars (trim s) = bareChars s := by
  rw [bareChars, stripQualifiersChars_trim, bareChars]

theorem enumKey_trim (s : List Char) :
    enumKey (String.ofList (trim s)) = enumKey (String.ofList s) := by
  rw [enumKey, enumKey, String.toList_ofList, String.toList_ofList, stripQualifiersChars_trim]

theorem endsInEnum_of_normalize {s t : String} (h : normalize s = String.ofList (trim t.toList)) :
    EndsInEnum (stripQualifiers s) ↔ EndsInEnum (stripQualifiers t) := by
  have hchars : normalizeChars s.toList = trim t.toList := String.ofList_injective h
  have htokens : tokens s.toList = tokens t.toList := by
    rw [← tokens_normalizeChars, hchars, tokens_trim]
  rw [EndsInEnum, EndsInEnum, stripQualifiers, stripQualifiers, String.toList_ofList,
    String.toList_ofList, getLast?_runs_stripQualifiersChars, htokens,
    getLast?_runs_stripQualifiersChars]

theorem contains_normalize {c : Char} (hc : isBlank c = false) (type : String) :
    (normalize type).toList.contains c = type.toList.contains c := by
  rw [Bool.eq_iff_iff, List.contains_iff_mem, List.contains_iff_mem, ← mem_withoutBlanks hc,
    normalize, String.toList_ofList, withoutBlanks_normalizeChars, mem_withoutBlanks hc]

theorem isPointer_normalize (type : String) : isPointer (normalize type) = isPointer type := by
  rw [isPointer, contains_normalize (by decide), isPointer]

theorem isReference_normalize (type : String) :
    isReference (normalize type) = isReference type := by
  rw [isReference, contains_normalize (by decide), isReference]

theorem isPointer_constReference (type : String) :
    isPointer (constReference type) = isPointer type := by
  rw [isPointer, toList_constReference]
  simp [isPointer, constWord]

theorem isReference_constReference (type : String) : isReference (constReference type) = true :=
  isReference_reference _

theorem isConst_constReference (type : String) : isConst (constReference type) = true := by
  have hword : runs constWord = [constWord] := by decide
  rw [isConst, hasWord, toList_constReference, runs_append_cons (by decide), hword,
    List.contains_iff_mem]
  exact List.mem_append_left _ (List.mem_singleton.2 rfl)

end Spelling

namespace Converter

open Spelling

variable {c : Converter} {type s t : String}

theorem enumByValue?_of_value (hpointer : isPointer type = false)
    (hreference : isReference type = false) : c.enumByValue? type = c.resolve? type := by
  rw [enumByValue?, hpointer, hreference, Bool.false_and, if_neg Bool.false_ne_true,
    if_neg Bool.false_ne_true]

theorem enumByValue?_constReference (hpointer : isPointer type = false)
    (henum : ¬EndsInEnum (stripQualifiers type)) :
    c.enumByValue? (constReference type) = c.resolve? type := by
  rw [enumByValue?, isPointer_constReference, hpointer, isConst_constReference, Bool.not_true,
    Bool.and_false, if_neg Bool.false_ne_true, if_neg Bool.false_ne_true]
  exact c.resolve?_congr (enumKey_constReference henum)

theorem carrier_of_bareChars (henums : c.enumByValue? (normalize s) = c.enumByValue? (normalize t))
    (hvoid : (normalize s == "void") = (normalize t == "void"))
    (hbare : bareChars (normalize s).toList = bareChars (normalize t).toList) (isReturn : Bool) :
    c.carrier s isReturn = c.carrier t isReturn := by
  obtain ⟨hbool, hnumber, htext, hlist, hpath⟩ := tests_of_bareChars hbare
  simp only [carrier, henums, hvoid, hbool, hnumber, htext, hlist, hpath]

theorem cppParam_of_bareChars (henums : c.enumByValue? s = c.enumByValue? t)
    (hbare : bareChars s.toList = bareChars t.toList) : c.cppParam s = c.cppParam t := by
  obtain ⟨hbool, hnumber, htext, -, hpath⟩ := tests_of_bareChars hbare
  have hsame : bare s = bare t := congrArg String.ofList hbare
  simp only [cppParam, henums, hbool, hnumber, htext, hpath, hsame]

/-- A value and a constant reference to it have the same carrier and the same parameter type. -/
theorem constReference_transparent (c : Converter) (hstar : '*' ∉ type.toList)
    (hmark : '&' ∉ type.toList) (hvoid : normalize type ≠ "void")
    (henum : ¬EndsInEnum (stripQualifiers type)) :
    (∀ isReturn, c.carrier (constReference type) isReturn = c.carrier type isReturn ∧
      c.tsType (constReference type) isReturn = c.tsType type isReturn) ∧
    c.cppParam (constReference type) = c.cppParam type := by
  have hpointer : isPointer type = false := by simpa [isPointer] using hstar
  have hvalue : isReference type = false := by simpa [isReference] using hmark
  obtain ⟨e, hreference, he⟩ := exists_normalize_constReference type
  have hepointer : isPointer e = false := by
    rw [← isPointer_constReference, ← hreference, isPointer_normalize, isPointer_constReference,
      hpointer]
  have henums : c.enumByValue? (normalize (constReference type)) =
      c.enumByValue? (normalize type) := by
    have hkey := enumKey_trim e.toList
    rw [← he, String.ofList_toList] at hkey
    rw [hreference, enumByValue?_constReference hepointer (mt (endsInEnum_of_normalize he).2 henum),
      enumByValue?_of_value ((isPointer_normalize type).trans hpointer)
        ((isReference_normalize type).trans hvalue)]
    exact c.resolve?_congr hkey.symm
  have hnotVoid : normalize (constReference type) ≠ "void" := by
    intro h
    have hmarked := isReference_normalize (constReference type)
    rw [h, isReference_constReference] at hmarked
    exact absurd hmarked (by decide)
  have hbare : bareChars (normalize (constReference type)).toList =
      bareChars (normalize type).toList := by
    rw [hreference, bareChars_constReference, he, String.toList_ofList, bareChars_trim]
  have hcarrier := carrier_of_bareChars henums
    ((beq_eq_false_iff_ne.2 hnotVoid).trans (beq_eq_false_iff_ne.2 hvoid).symm) hbare
  refine ⟨fun isReturn => ⟨hcarrier isReturn, ?_⟩, ?_⟩
  · rw [tsType, hcarrier, tsType]
  · have hsame : c.enumByValue? (constReference type) = c.enumByValue? type := by
      rw [enumByValue?_constReference hpointer henum, enumByValue?_of_value hpointer hvalue]
    exact cppParam_of_bareChars hsame (bareChars_constReference type)

theorem constReference_transparent_unsignedInt :
    '*' ∉ "unsigned  int const".toList ∧ '&' ∉ "unsigned  int const".toList ∧
      normalize "unsigned  int const" ≠ "void" ∧
      ¬EndsInEnum (stripQualifiers "unsigned  int const") ∧
      (∀ isReturn, executive.tsType (constReference "unsigned  int const") isReturn =
        executive.tsType "unsigned  int const" isReturn) ∧
      executive.cppParam (constReference "unsigned  int const") = "unsigned int" := by
  have hstar : '*' ∉ "unsigned  int const".toList := by decide
  have hmark : '&' ∉ "unsigned  int const".toList := by decide
  have hvoid : normalize "unsigned  int const" ≠ "void" := by decide
  have henum : ¬EndsInEnum (stripQualifiers "unsigned  int const") := by decide
  obtain ⟨hcarrier, hparam⟩ := constReference_transparent executive hstar hmark hvoid henum
  exact ⟨hstar, hmark, hvoid, henum, fun isReturn => (hcarrier isReturn).2,
    hparam.trans (by decide)⟩

end Converter

end WasmBindings
