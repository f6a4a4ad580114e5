import WasmBindings.Proofs.DefaultValue

/-!
Default values of texts and paths.  An expression stands for a text if it is a literal, makes an
object from a literal and from nothing else, or makes an empty one.  All these have their text for
a default.  But the literal is looked for everywhere below the expression, and every construction
without one counts as empty, so calls, concatenations and copies get a default as well.
-/

namespace WasmBindings.DefaultValue

open Casts (nodeOf)

variable {v w expr n : Json} {s type : String} {pathTypes : List String}

def arguments (v : Json) : List Json :=
  (Tree.children v).filter fun a => !Tree.hasKind "CXXDefaultArgExpr" a

/-- The literal that an expression is, or from which it makes an object. -/
inductive MadeFrom : Json → String → Prop
  | literal {v : Json} {s : String} (hkind : Tree.hasKind "StringLiteral" v = true)
      (hs : v.field? "value" = some (.str s)) : MadeFrom v s
  | construction {v a w : Json} {s : String} (hv : isConstruction v = true)
      (ha : arguments v = [a]) (hw : Wraps a w) (h : MadeFrom w s) : MadeFrom v s

inductive StandsFor : Json → String → Prop
  | text {v : Json} {s : String} (h : MadeFrom v s) : StandsFor v s
  | empty {v : Json} (hv : isConstruction v = true) (ha : arguments v = []) :
      StandsFor v "\"\""

/-- The arguments that a construction takes from the declaration hold no texts; the compiler does
not print what is below them. -/
def DefaultsBare (expr : Json) : Prop :=
  ∀ v ∈ Tree.preorder expr, isConstruction v = true → ∀ a ∈ Tree.children v,
    Tree.hasKind "CXXDefaultArgExpr" a = true → ∀ u ∈ Tree.preorder a, isStringLiteral u = false

instance (expr : Json) : Decidable (DefaultsBare expr) :=
  inferInstanceAs (Decidable (∀ v ∈ Tree.preorder expr, isConstruction v = true →
    ∀ a ∈ Tree.children v, Tree.hasKind "CXXDefaultArgExpr" a = true →
      ∀ u ∈ Tree.preorder a, isStringLiteral u = false))

theorem DefaultsBare.of_mem (h : DefaultsBare v) (hw : w ∈ Tree.preorder v) : DefaultsBare w :=
  fun u hu => h u (Tree.preorder_subset hw hu)

theorem hasKind_of_isConstruction {other : String} (h : isConstruction v = true)
    (hconstruct : "CXXConstructExpr" ≠ other) (htemporary : "CXXTemporaryObjectExpr" ≠ other) :
    Tree.hasKind other v = false := by
  rcases Bool.or_eq_true_iff.1 h with h | h
  · exact hasKind_eq_false h hconstruct
  · exact hasKind_eq_false h htemporary

theorem isObject_of_isConstruction (h : isConstruction v = true) : v.isObject = true := by
  rcases Bool.or_eq_true_iff.1 h with h | h <;>
    exact Tree.isObject_of_field? (Tree.field?_of_hasKind h)

theorem not_isStringLiteral {v : Json} (h : Tree.hasKind "StringLiteral" v = false) :
    ¬ isStringLiteral v = true := by
  rw [isStringLiteral, h, Bool.false_and]
  exact Bool.false_ne_true

theorem formOf_eq_text (htruth : Tree.hasKind "CXXBoolLiteralExpr" v = false)
    (hinteger : Tree.hasKind "IntegerLiteral" v = false)
    (hfloating : Tree.hasKind "FloatingLiteral" v = false)
    (hsigned : Tree.hasKind "UnaryOperator" v = false) : formOf v = .text := by
  simp [formOf, isTruth, isNumberNode, isSigned, htruth, hinteger, hfloating, hsigned]

theorem formOf_of_isConstruction (h : isConstruction v = true) : formOf v = .text := by
  apply formOf_eq_text <;> exact hasKind_of_isConstruction h (by decide) (by decide)

theorem StandsFor.isConstruction_or (h : StandsFor v s) :
    Tree.hasKind "StringLiteral" v = true ∨ isConstruction v = true := by
  cases h with
  | text h =>
    cases h with
    | literal hkind _ => exact .inl hkind
    | construction hv _ _ _ => exact .inr hv
  | empty hv _ => exact .inr hv

theorem StandsFor.formOf (h : StandsFor v s) : formOf v = .text := by
  rcases h.isConstruction_or with h | h
  · apply formOf_eq_text <;> exact hasKind_eq_false h (by decide)
  · exact formOf_of_isConstruction h

theorem StandsFor.isObject (h : StandsFor v s) : v.isObject = true := by
  rcases h.isConstruction_or with h | h
  · exact Tree.isObject_of_field? (Tree.field?_of_hasKind h)
  · exact isObject_of_isConstruction h

theorem Wraps.find? {u : Json} (h : Wraps v w)
    (hw : (Tree.preorder w).find? isStringLiteral = some u) :
    (Tree.preorder v).find? isStringLiteral = some u := by
  induction h with
  | refl v => exact hw
  | @step v c w kind rest hkind hv hc _ ih =>
    have hother : kind ≠ "StringLiteral" := by
      rintro rfl
      exact absurd hkind (by decide)
    rw [Tree.preorder_of_isObject (Tree.isObject_of_field? (Tree.field?_of_hasKind hv)),
      List.find?_cons_of_neg (not_isStringLiteral (hasKind_eq_false hv hother)), hc,
      List.flatMap_cons, List.find?_append, ih hw, Option.some_or]

theorem find?_flatMap_eq_none {vs : List Json}
    (h : ∀ a ∈ vs, ∀ u ∈ Tree.preorder a, isStringLiteral u = false) :
    (vs.flatMap Tree.preorder).find? isStringLiteral = none := by
  rw [List.find?_eq_none]
  intro u hu
  obtain ⟨a, ha, hu⟩ := List.mem_flatMap.1 hu
  rw [h a ha u hu]
  exact Bool.false_ne_true

theorem MadeFrom.exists_find? (h : MadeFrom v s) (hbare : DefaultsBare v) :
    ∃ u, (Tree.preorder v).find? isStringLiteral = some u ∧ u.field? "value" = some (.str s) := by
  induction h with
  | @literal v s hkind hs =>
    refine ⟨v, ?_, hs⟩
    rw [Tree.preorder_of_isObject (Tree.isObject_of_field? hs),
      List.find?_cons_of_pos (isStringLiteral_of_text hkind hs)]
  | @construction v a w s hv ha hw h ih =>
    obtain ⟨before, after, hchildren, hbefore, -, -⟩ := List.filter_eq_cons_iff.1 ha
    have hobject := isObject_of_isConstruction hv
    have hmem : w ∈ Tree.preorder v :=
      Tree.preorder_subset_of_mem_children (by simp [hchildren])
        (hw.mem_preorder (StandsFor.text h).isObject)
    have hnone : (before.flatMap Tree.preorder).find? isStringLiteral = none := by
      apply find?_flatMap_eq_none
      intro d hd
      exact hbare v (Tree.mem_preorder_self hobject) hv d (by simp [hchildren, hd])
        (by simpa using hbefore d hd)
    obtain ⟨u, hu, hs⟩ := ih (hbare.of_mem hmem)
    refine ⟨u, ?_, hs⟩
    rw [Tree.preorder_of_isObject hobject,
      List.find?_cons_of_neg (not_isStringLiteral (hasKind_of_isConstruction hv (by decide)
        (by decide))), hchildren, List.flatMap_append, List.find?_append, hnone, Option.none_or,
      List.flatMap_cons, List.find?_append, hw.find? hu, Option.some_or]

theorem extract_of_text (hexpr : AsPrinted expr) (htype : takesText pathTypes type = true)
    (hn : unwrap expr = .ok n) (hform : formOf n = .text) :
    extract pathTypes type expr =
      .ok ((firstText? n).or (if isConstruction n then some "\"\"" else none)) := by
  rw [extract_of_unwrap hn]
  cases hobject : n.isObject with
  | true =>
    have hmem := (wraps_of_unwrap hn).mem_preorder hobject
    rw [if_pos rfl, ofNode_of_text (hexpr.of_mem hmem) hform, htype, Bool.true_and]
  | false =>
    have hfirst : firstText? n = none := by
      rw [firstText?_eq_none_iff, Tree.preorder_of_not_isObject hobject]
      exact fun u hu => absurd hu List.not_mem_nil
    have hconstruction : isConstruction n = false :=
      Bool.eq_false_iff.2 fun h => by simp [isObject_of_isConstruction h] at hobject
    rw [hfirst, hconstruction]
    rfl

theorem firstText?_of_no_arguments (hbare : DefaultsBare v) (hv : isConstruction v = true)
    (ha : arguments v = []) : firstText? v = none := by
  have hobject := isObject_of_isConstruction hv
  rw [firstText?_eq_none_iff, Tree.preorder_of_isObject hobject]
  intro u hu
  rcases List.mem_cons.1 hu with rfl | hu
  · exact Bool.eq_false_iff.2
      (not_isStringLiteral (hasKind_of_isConstruction hv (by decide) (by decide)))
  · obtain ⟨d, hd, hu⟩ := List.mem_flatMap.1 hu
    have hdefault := List.filter_eq_nil_iff.1 ha d hd
    exact hbare v (Tree.mem_preorder_self hobject) hv d hd (by simpa using hdefault) u hu

theorem StandsFor.extract (h : StandsFor n s) (hexpr : AsPrinted expr) (hbare : DefaultsBare n)
    (htype : takesText pathTypes type = true) (hn : unwrap expr = .ok n) :
    extract pathTypes type expr = .ok (some s) := by
  rw [extract_of_text hexpr htype hn h.formOf]
  cases h with
  | text h =>
    obtain ⟨u, hu, hs⟩ := h.exists_find? hbare
    rw [firstText?_of_find? hu hs, Option.some_or]
  | empty hv ha =>
    rw [firstText?_of_no_arguments hbare hv ha, hv]
    rfl

theorem not_isQuoted_forParam {numeral : String} (h : IsNumeral numeral) :
    ¬ IsQuoted (forParam type numeral) := by
  rw [forParam]
  split
  · split <;> decide
  · exact fun hquoted => hquoted.not_isNumeral h

theorem formOf_of_isQuoted (hexpr : AsPrinted expr) (hn : unwrap expr = .ok n)
    (hs : IsQuoted s) (h : extract pathTypes type expr = .ok (some s)) : formOf n = .text := by
  obtain ⟨n', hn', hmem, h⟩ := exists_of_extract h
  cases hn'.symm.trans hn
  cases hform : DefaultValue.formOf n with
  | truth =>
    rcases truth_of_truth hform h with rfl | rfl <;> exact absurd hs (by decide)
  | number =>
    obtain ⟨numeral, hnumeral, hliteral⟩ := exists_numeral_of_number (hexpr.of_mem hmem) hform h
    rw [hliteral] at hs
    exact absurd hs (not_isQuoted_forParam hnumeral)
  | text => rfl

/-- Every text that becomes the default of a text is what the expression stands for, unless the
expression stands for none and is a construction or has a literal somewhere below.  In these cases
a text becomes the default all the same. -/
theorem text_default_sound_iff (pathTypes : List String) (type : String) (expr n : Json)
    (htype : takesText pathTypes type = true) (hexpr : AsPrinted expr) (hbare : DefaultsBare n)
    (hn : unwrap expr = .ok n) :
    ((∀ s, IsQuoted s → extract pathTypes type expr = .ok (some s) → StandsFor n s) ↔
      (formOf n = .text → (∃ s, StandsFor n s) ∨
        isConstruction n = false ∧ ∀ v ∈ Tree.preorder n, isStringLiteral v = false)) ∧
      ∀ s, StandsFor n s → extract pathTypes type expr = .ok (some s) := by
  refine ⟨⟨?_, ?_⟩, fun s hs => hs.extract hexpr hbare htype hn⟩
  · intro hsound hform
    have hextract := extract_of_text hexpr htype hn hform
    cases hfirst : firstText? n with
    | some s =>
      rw [hfirst, Option.some_or] at hextract
      obtain ⟨n', hn', hmem, -⟩ := exists_of_extract hextract
      cases hn'.symm.trans hn
      exact .inl ⟨s, hsound s ((hexpr.of_mem hmem).isQuoted_firstText? hfirst) hextract⟩
    | none =>
      cases hconstruction : isConstruction n with
      | true =>
        refine .inl ⟨_, hsound "\"\"" (by decide) ?_⟩
        rw [hextract, hfirst, hconstruction]
        rfl
      | false => exact .inr ⟨rfl, firstText?_eq_none_iff.1 hfirst⟩
  · intro hplain s hs hextract
    have hform := formOf_of_isQuoted hexpr hn hs hextract
    rcases hplain hform with ⟨t, ht⟩ | ⟨hconstruction, hnone⟩
    · have hsame := ht.extract hexpr hbare htype hn
      rw [hextract] at hsame
      cases hsame
      exact ht
    · rw [extract_of_text hexpr htype hn hform, firstText?_eq_none_iff.2 hnone,
        hconstruction] at hextract
      cases hextract

def constructNode (arguments : List Json) : Json := nodeOf "CXXConstructExpr" [] arguments

def modelText : Json :=
  constructNode [castNode (textNode "\"c172\""), nodeOf "CXXDefaultArgExpr" [] []]

def boundModelText : Json := nodeOf "MaterializeTemporaryExpr" [] [modelText]

theorem standsFor_modelText : StandsFor modelText "\"c172\"" := by
  have hcast : Tree.hasKind "ImplicitCastExpr" (castNode (textNode "\"c172\"")) = true := rfl
  have hliteral : MadeFrom (textNode "\"c172\"") "\"c172\"" := .literal rfl rfl
  exact .text (.construction rfl rfl (.step (by decide) hcast rfl (.refl _)) hliteral)

theorem unwrap_boundModelText : unwrap boundModelText = .ok modelText := by
  have hkind : Tree.hasKind "MaterializeTemporaryExpr" boundModelText = true := rfl
  have hmodel : Tree.hasKind "CXXConstructExpr" modelText = true := rfl
  rw [(Wraps.step (by decide) hkind rfl (.refl modelText)).unwrap_eq]
  exact unwrap_of_hasKind hmodel (by decide)

theorem text_default_sound_modelText :
    takesText Spelling.defaultPathTypes "const std::string&" = true ∧ AsPrinted boundModelText ∧
      DefaultsBare modelText ∧ unwrap boundModelText = .ok modelText ∧
      extract Spelling.defaultPathTypes "const std::string&" boundModelText =
        .ok (some "\"c172\"") ∧
      ∀ s, IsQuoted s →
        extract Spelling.defaultPathTypes "const std::string&" boundModelText = .ok (some s) →
          StandsFor modelText s := by
  have hexpr : AsPrinted boundModelText := by decide +kernel
  have hbare : DefaultsBare modelText := by decide +kernel
  obtain ⟨hsound, hall⟩ := text_default_sound_iff Spelling.defaultPathTypes "const std::string&"
    boundModelText modelText (by decide) hexpr hbare unwrap_boundModelText
  exact ⟨by decide, hexpr, hbare, unwrap_boundModelText, hall _ standsFor_modelText,
    hsound.2 fun _ => .inl ⟨_, standsFor_modelText⟩⟩

def nameNode : Json := nodeOf "DeclRefExpr" [] []

def rootCopy : Json := constructNode [nameNode]

def joinedFile : Json :=
  nodeOf "CXXOperatorCallExpr" [] [nameNode, castNode (textNode "\"aircraft/\""), nameNode]

theorem not_madeFrom_rootCopy (s : String) : ¬ MadeFrom rootCopy s := by
  intro h
  cases h with
  | literal hkind _ => cases hkind
  | construction _ ha hw h =>
    cases ha
    have hname : Tree.hasKind "DeclRefExpr" nameNode = true := rfl
    cases hw with
    | refl => rcases (StandsFor.text h).isConstruction_or with h | h <;> cases h
    | step hkind hv _ _ =>
      cases Tree.eq_of_hasKind hname hv
      exact absurd hkind (by decide)

theorem text_default_not_sound :
    (takesText Spelling.defaultPathTypes "std::string" = true ∧
      extract Spelling.defaultPathTypes "std::string" rootCopy = .ok (some "\"\"") ∧
      unwrap rootCopy = .ok rootCopy ∧ ¬ StandsFor rootCopy "\"\"") ∧
    extract Spelling.defaultPathTypes "std::string" joinedFile = .ok (some "\"aircraft/\"") ∧
      unwrap joinedFile = .ok joinedFile ∧ ¬ StandsFor joinedFile "\"aircraft/\"" := by
  have hcopy : Tree.hasKind "CXXConstructExpr" rootCopy = true := rfl
  have hjoined : Tree.hasKind "CXXOperatorCallExpr" joinedFile = true := rfl
  refine ⟨⟨by decide, by decide +kernel, unwrap_of_hasKind hcopy (by decide), fun h => ?_⟩,
    by decide +kernel, unwrap_of_hasKind hjoined (by decide), fun h => ?_⟩
  · cases h with
    | text h => exact not_madeFrom_rootCopy _ h
    | empty _ ha => cases ha
  · rcases h.isConstruction_or with h | h <;> cases h

end WasmBindings.DefaultValue
