import WasmBindings.Emit.ApiClass
import WasmBindings.Proofs.ParamName

namespace WasmBindings.Emit.ApiClass

open Text

def commentEnd : List Char := ['*', '/']

/-- A text inside a comment leaves it open. -/
def Unclosed (s : List Char) : Prop := ¬ commentEnd <:+: s

instance (s : List Char) : Decidable (Unclosed s) :=
  decidable_of_iff (¬ occursIn commentEnd s = true) (not_congr occursIn_iff)

/-- One comment from the first to the last character. -/
structure IsComment (text : List Char) : Prop where
  opens : "  /**\n".toList <+: text
  closes : commentEnd <:+ text
  once : ∀ before after, text = before ++ (commentEnd ++ after) → after = []

structure Undocumented (o : Overload) : Prop where
  description : o.method.doc.description = []
  params : ∀ (i : Nat) (p : Param), i < o.params.length → o.method.params[i]? = some p →
    o.method.doc.paramText i p.name = ""
  returns : o.method.doc.returns = ""

theorem unclosed_nil : Unclosed [] := by
  intro h
  cases List.eq_nil_of_infix_nil h

theorem unclosed_cons {c : Char} {s : List Char} :
    Unclosed (c :: s) ↔ Unclosed s ∧ (c = '*' → s.head? ≠ some '/') := by
  have hprefix : commentEnd <+: c :: s ↔ c = '*' ∧ s.head? = some '/' := by
    cases s with
    | nil => simp [commentEnd]
    | cons d s => simp [commentEnd, eq_comm]
  rw [Unclosed, List.infix_cons_iff, hprefix, not_or, not_and, and_comm]
  rfl

theorem unclosed_cons_of_ne {c : Char} (hc : c ≠ '*') {s : List Char} :
    Unclosed (c :: s) ↔ Unclosed s := by
  simp [unclosed_cons, hc]

theorem unclosed_append_cons {c : Char} (hc : c ∉ commentEnd) {s t : List Char} :
    Unclosed (s ++ c :: t) ↔ Unclosed s ∧ Unclosed t := by
  simp only [commentEnd, List.mem_cons, List.not_mem_nil, or_false, not_or] at hc
  induction s with
  | nil => simp [unclosed_cons_of_ne hc.1, unclosed_nil]
  | cons d s ih =>
    have hhead : (s ++ c :: t).head? ≠ some '/' ↔ s.head? ≠ some '/' := by
      cases s with
      | nil => simp [hc.2]
      | cons e s => simp
    rw [List.cons_append, unclosed_cons, unclosed_cons, ih, hhead]
    exact and_right_comm

theorem unclosed_of_not_mem {s : List Char} (h : '*' ∉ s) : Unclosed s :=
  fun hend => h (hend.subset List.mem_cons_self)

theorem head?_escapeComment {s : List Char} : (escapeComment s).head? = s.head? := by
  fun_cases escapeComment s <;> rfl

theorem unclosed_escapeComment (s : List Char) : Unclosed (escapeComment s) := by
  fun_induction escapeComment s with
  | case1 r ih => simpa [unclosed_cons] using ih
  | case2 c r hc ih =>
    refine unclosed_cons.2 ⟨ih, fun hstar hhead => ?_⟩
    rw [head?_escapeComment] at hhead
    obtain ⟨t, rfl⟩ := List.head?_eq_some_iff.1 hhead
    exact hc t hstar rfl
  | case3 => exact unclosed_nil

theorem unclosed_of_isIdentifier {name : String} (h : ParamName.isIdentifier name = true) :
    Unclosed name.toList := by
  apply unclosed_of_not_mem
  rw [ParamName.isIdentifier] at h
  cases hname : name.toList with
  | nil => exact List.not_mem_nil
  | cons c r =>
    rw [hname, Bool.and_eq_true] at h
    obtain ⟨hstart, hrest⟩ := h
    intro hstar
    rcases List.mem_cons.1 hstar with rfl | hstar
    · exact absurd hstart (by decide)
    -- Past the identifier characters there is at most a line feed.
    rw [← List.takeWhile_append_dropWhile (p := isIdentChar) (l := r), List.mem_append] at hstar
    rcases hstar with hstar | hstar
    · exact absurd (List.mem_takeWhile_imp hstar) (by decide)
    · cases hr : r.dropWhile isIdentChar with
      | nil => simp [hr] at hstar
      | cons d t =>
        rw [hr] at hrest hstar
        rw [ParamName.isIdentifier.endsWell, beq_iff_eq] at hrest
        · rw [hrest] at hstar
          exact absurd hstar (by decide)
        · exact List.cons_ne_nil d t

theorem unclosed_append_space {s t : String} (hs : Unclosed s.toList) (ht : Unclosed t.toList) :
    Unclosed (s ++ " " ++ t).toList := by
  have hspace : ' ' ∉ commentEnd := by decide
  rw [String.toList_append, String.toList_append, List.append_assoc]
  exact (unclosed_append_cons hspace).2 ⟨hs, ht⟩

theorem unclosed_joinLines {lines : List String} (h : ∀ l ∈ lines, Unclosed l.toList) :
    Unclosed (joinLines lines).toList := by
  have hline : '\n' ∉ commentEnd := by decide
  induction lines with
  | nil => exact unclosed_nil
  | cons l lines ih =>
    obtain ⟨hl, hlines⟩ := List.forall_mem_cons.1 h
    by_cases hne : lines = []
    · rw [hne, joinLines, String.intercalate_singleton]
      exact hl
    · rw [joinLines, String.intercalate_cons_of_ne_nil hne, String.toList_append,
        String.toList_append, List.append_assoc]
      exact (unclosed_append_cons hline).2 ⟨hl, ih hlines⟩

def innerLines (o : Overload) : List String :=
  o.method.doc.description.map (fun l => "   * " ++ escape l)
    ++ (paramDocs o).map (fun d => "   * @param " ++ d.1 ++ " " ++ escape d.2)
    ++ if o.method.doc.returns == "" then [] else ["   * @returns " ++ escape o.method.doc.returns]

theorem unclosed_escape (s : String) : Unclosed (escape s).toList := by
  rw [escape, String.toList_ofList]
  exact unclosed_escapeComment s.toList

theorem fst_of_mem_paramDocs {o : Overload} {d : String × String} (h : d ∈ paramDocs o) :
    ∃ p ∈ o.params, d.1 = p.name := by
  obtain ⟨i, hi, rfl⟩ := List.mem_mapIdx.1 (List.mem_filter.1 h).1
  exact ⟨_, (List.of_mem_zip (List.getElem_mem hi)).1, rfl⟩

theorem unclosed_innerLines {o : Overload} (h : ∀ p ∈ o.params, Unclosed p.name.toList) :
    ∀ l ∈ innerLines o, Unclosed l.toList := by
  intro l hl
  rw [innerLines, List.mem_append, List.mem_append] at hl
  rcases hl with (hl | hl) | hl
  · obtain ⟨s, -, rfl⟩ := List.mem_map.1 hl
    exact unclosed_append_space (s := "   *") (by decide) (unclosed_escape s)
  · obtain ⟨d, hd, rfl⟩ := List.mem_map.1 hl
    obtain ⟨p, hp, hname⟩ := fst_of_mem_paramDocs hd
    have hlead := unclosed_append_space (s := "   * @param") (by decide) (h p hp)
    rw [hname]
    exact unclosed_append_space hlead (unclosed_escape d.2)
  · split at hl
    · cases hl
    · rw [List.mem_singleton.1 hl]
      exact unclosed_append_space (s := "   * @returns") (by decide) (unclosed_escape _)

theorem undocumented_iff {o : Overload} : Undocumented o ↔
    o.method.doc.description = [] ∧ paramDocs o = [] ∧ o.method.doc.returns = "" := by
  have hparams : paramDocs o = [] ↔ ∀ (i : Nat) (p : Param), i < o.params.length →
      o.method.params[i]? = some p → o.method.doc.paramText i p.name = "" := by
    rw [paramDocs, List.filter_eq_nil_iff]
    constructor
    · intro h i p hi hp
      obtain ⟨hlength, rfl⟩ := List.getElem?_eq_some_iff.1 hp
      have hzip : i < (o.params.zip o.method.params).length := by
        rw [List.length_zip]
        omega
      simpa using h _ (List.mem_mapIdx.2 ⟨i, hzip, rfl⟩)
    · intro h d hd
      obtain ⟨i, hzip, rfl⟩ := List.mem_mapIdx.1 hd
      rw [List.length_zip] at hzip
      simpa using h i _ (by omega) (List.getElem?_eq_getElem (by omega))
  rw [hparams]
  exact ⟨fun h => ⟨h.description, h.params, h.returns⟩, fun h => ⟨h.1, h.2.1, h.2.2⟩⟩

theorem docLines_of_undocumented {o : Overload} (h : Undocumented o) : docLines o = [] := by
  obtain ⟨hdescription, hparams, hreturns⟩ := undocumented_iff.1 h
  simp [docLines, hdescription, hparams, hreturns]

theorem docLines_of_documented {o : Overload} (h : ¬ Undocumented o) :
    docLines o = ("  /**" :: innerLines o) ++ ["   */"] := by
  rw [undocumented_iff] at h
  rw [docLines, if_neg (by simpa using h), innerLines]
  simp

theorem eq_nil_of_unclosed {body before after : List Char} (h : Unclosed (body ++ ['*']))
    (heq : body ++ commentEnd = before ++ (commentEnd ++ after)) : after = [] := by
  rcases List.eq_nil_or_concat after with hnil | ⟨rest, c, rfl⟩
  · exact hnil
  · have hlast : body ++ ['*'] ++ ['/'] = before ++ commentEnd ++ rest ++ [c] := by
      simpa [commentEnd] using heq
    exact absurd ⟨before, rest, (List.append_inj' hlast rfl).1.symm⟩ h

/-- A documented overload has one comment over it, and no text of the documentation can end it
early; without documentation there is none. -/
theorem docLines_comment (o : Overload)
    (hnames : ∀ p ∈ o.params, ParamName.isIdentifier p.name = true) :
    (Undocumented o → docLines o = []) ∧
      (¬ Undocumented o → IsComment (joinLines (docLines o)).toList) := by
  refine ⟨docLines_of_undocumented, fun h => ?_⟩
  have hinner : ∀ l ∈ "  /**" :: innerLines o, Unclosed l.toList :=
    List.forall_mem_cons.2 ⟨by decide,
      unclosed_innerLines fun p hp => unclosed_of_isIdentifier (hnames p hp)⟩
  have htext : (joinLines (docLines o)).toList =
      (joinLines ("  /**" :: innerLines o)).toList ++ '\n' :: "   ".toList ++ commentEnd := by
    rw [docLines_of_documented h, joinLines, String.intercalate_append_of_ne_nil
      (List.cons_ne_nil _ _) (List.cons_ne_nil _ _), String.intercalate_singleton]
    simp [joinLines, commentEnd]
  have hlast : Unclosed ((joinLines ("  /**" :: innerLines o)).toList ++ '\n' :: "   *".toList) :=
    (unclosed_append_cons (by decide)).2 ⟨unclosed_joinLines hinner, by decide⟩
  refine ⟨?_, ⟨_, htext.symm⟩, fun before after heq => ?_⟩
  · rw [docLines_of_documented h, List.cons_append, joinLines,
      String.intercalate_cons_of_ne_nil (by simp), String.toList_append]
    exact List.prefix_append _ _
  · rw [htext] at heq
    exact eq_nil_of_unclosed (by simpa using hlast) heq

def loadScript : Overload :=
  { method := { name := "LoadScript", returnType := "bool",
                params := [⟨"script", "const SGPath&", none⟩],
                doc := ⟨["Loads a script.", "Ends with **/ here.", "/*/*/"], [], [(0, "a file*/")],
                  "*/ true on success"⟩ },
    params := [⟨"script", "string", none⟩], returnType := "boolean" }

theorem docLines_comment_loadScript :
    (∀ p ∈ loadScript.params, ParamName.isIdentifier p.name = true) ∧
      ¬ Undocumented loadScript ∧ IsComment (joinLines (docLines loadScript)).toList := by
  have hnames : ∀ p ∈ loadScript.params, ParamName.isIdentifier p.name = true := by decide
  have hdocumented : ¬ Undocumented loadScript := fun h => absurd h.returns (by decide)
  exact ⟨hnames, hdocumented, (docLines_comment loadScript hnames).2 hdocumented⟩

example : docLines loadScript =
    ["  /**", "   * Loads a script.", "   * Ends with **\\/ here.", "   * /*\\/*\\/",
      "   * @param script a file*\\/", "   * @returns *\\/ true on success", "   */"] := by
  decide

end WasmBindings.Emit.ApiClass
