import WasmBindings.DefaultValue
import WasmBindings.Proofs.Carrier
import WasmBindings.Proofs.Enumerators
import WasmBindings.Proofs.FlagGroups
import WasmBindings.Proofs.Outcome
import WasmBindings.Proofs.Tree

namespace WasmBindings.DefaultValue

open Text

variable {v c w : Json} {kind : String}

inductive Wraps : Json → Json → Prop
  | refl (v : Json) : Wraps v v
  | step {v c w : Json} {kind : String} {rest : List Json} (hkind : kind ∈ wrapperKinds)
      (hv : Tree.hasKind kind v = true) (hc : Tree.children v = c :: rest) (h : Wraps c w) :
      Wraps v w

theorem isWrapper_of_hasKind (h : Tree.hasKind kind v = true) :
    isWrapper v = .ok (wrapperKinds.contains kind) := by
  rw [isWrapper, Tree.field?_of_hasKind h]

theorem exists_hasKind_of_isWrapper (h : isWrapper v = .ok true) :
    ∃ kind ∈ wrapperKinds, Tree.hasKind kind v = true := by
  rw [isWrapper] at h
  split at h
  · next kind hkind =>
    refine ⟨kind, ?_, by simp [Tree.hasKind, Json.fieldIs, hkind]⟩
    simpa using h
  · split at h <;> cases h
  · cases h

theorem wraps_of_unwrap (h : unwrap v = .ok w) : Wraps v w := by
  fun_induction unwrap v with
  | case1 v e he => cases h
  | case2 v hv =>
    cases h
    exact .refl _
  | case3 v hv hc =>
    cases h
    exact .refl _
  | case4 v hv c rest hc ih =>
    obtain ⟨kind, hkind, hv⟩ := exists_hasKind_of_isWrapper hv
    exact .step hkind hv hc (ih h)

theorem Wraps.unwrap_eq (h : Wraps v w) : unwrap v = unwrap w := by
  induction h with
  | refl v => rfl
  | @step v c w kind rest hkind hv hc _ ih =>
    have hwrapper := isWrapper_of_hasKind hv
    rw [List.contains_iff_mem.2 hkind] at hwrapper
    rw [← ih, unwrap.eq_def v]
    simp only [hwrapper]
    split
    · next hnil => simp [hnil] at hc
    · next hcons => cases hcons.symm.trans hc; rfl

theorem unwrap_of_hasKind (h : Tree.hasKind kind v = true) (hkind : kind ∉ wrapperKinds) :
    unwrap v = .ok v := by
  have hwrapper := isWrapper_of_hasKind h
  rw [Bool.eq_false_iff.2 (mt List.contains_iff_mem.1 hkind)] at hwrapper
  rw [unwrap, hwrapper]

theorem Wraps.mem_preorder (h : Wraps v w) (hw : w.isObject = true) : w ∈ Tree.preorder v := by
  induction h with
  | refl v => exact Tree.mem_preorder_self hw
  | step _ _ hc _ ih =>
    exact Tree.preorder_subset_of_mem_children (by simp [hc]) (ih hw)

inductive Form where
  | truth
  | number
  | text
  deriving DecidableEq, Repr

def isTruth (v : Json) : Bool :=
  Tree.hasKind "CXXBoolLiteralExpr" v && (v.field? "value").any fun
    | .bool _ => true
    | _ => false

def isSigned (v : Json) : Bool := Tree.hasKind "UnaryOperator" v && (sign? v).isSome

/-- The form of an expression below its wrappers.  Everything that is no truth value and no number
counts as a text. -/
def formOf (v : Json) : Form :=
  if isTruth v then .truth else if isNumberNode v || isSigned v then .number else .text

variable {pathTypes : List String} {type literal : String}

theorem hasKind_eq_false {other : String} (h : Tree.hasKind kind v = true) (hne : kind ≠ other) :
    Tree.hasKind other v = false :=
  Bool.eq_false_iff.2 fun hother => hne (Tree.eq_of_hasKind h hother)

theorem hasKind_of_isNumberNode {other : String} (h : isNumberNode v = true)
    (hinteger : "IntegerLiteral" ≠ other) (hfloating : "FloatingLiteral" ≠ other) :
    Tree.hasKind other v = false := by
  rcases Bool.or_eq_true_iff.1 h with h | h
  · exact hasKind_eq_false h hinteger
  · exact hasKind_eq_false h hfloating

theorem ofNode_of_truth {b : Bool} (hkind : Tree.hasKind "CXXBoolLiteralExpr" v = true)
    (hvalue : v.field? "value" = some (.bool b)) :
    ofNode pathTypes type v = .ok (some (if b then "true" else "false")) := by
  rw [ofNode, hkind, hvalue]

theorem ofNode_of_isNumberNode (h : isNumberNode v = true) :
    ofNode pathTypes type v =
      .ok ((numberLiteral? (v.field? "value")).map (forParam type)) := by
  rw [ofNode, hasKind_of_isNumberNode h (by decide) (by decide)]
  simp only [h, if_true]

theorem ofNode_of_sign {sign : Char} (hkind : Tree.hasKind "UnaryOperator" v = true)
    (hsign : sign? v = some sign) :
    ofNode pathTypes type v = (signed? sign v).map (Option.map (forParam type)) := by
  have hnumber : isNumberNode v = false := by
    rw [isNumberNode, hasKind_eq_false hkind (by decide), hasKind_eq_false hkind (by decide),
      Bool.or_self]
  rw [ofNode, hasKind_eq_false hkind (by decide)]
  simp only [hnumber, hkind, hsign, Bool.false_eq_true, if_false]
  cases signed? sign v <;> rfl

def firstText? (v : Json) : Option String :=
  ((Tree.preorder v).find? isStringLiteral).bind fun w => (w.field? "value").bind Json.text?

theorem exists_text_of_isStringLiteral (h : isStringLiteral v = true) :
    Tree.hasKind "StringLiteral" v = true ∧ ∃ s, v.field? "value" = some (.str s) := by
  rw [isStringLiteral, Bool.and_eq_true, Option.any_eq_true] at h
  obtain ⟨hkind, value, hvalue, htext⟩ := h
  refine ⟨hkind, ?_⟩
  cases value with
  | str s => exact ⟨s, hvalue⟩
  | _ => cases htext

theorem isStringLiteral_of_text {s : String} (hkind : Tree.hasKind "StringLiteral" v = true)
    (hvalue : v.field? "value" = some (.str s)) : isStringLiteral v = true := by
  simp [isStringLiteral, hkind, hvalue, isText]

theorem firstText?_of_find? {s : String} (h : (Tree.preorder v).find? isStringLiteral = some w)
    (hs : w.field? "value" = some (.str s)) : firstText? v = some s := by
  rw [firstText?, h, Option.bind_some, hs]
  rfl

theorem firstText?_of_text {s : String} (hkind : Tree.hasKind "StringLiteral" v = true)
    (hvalue : v.field? "value" = some (.str s)) : firstText? v = some s := by
  apply firstText?_of_find? _ hvalue
  rw [Tree.preorder_of_isObject (Tree.isObject_of_field? hvalue),
    List.find?_cons_of_pos (isStringLiteral_of_text hkind hvalue)]

theorem exists_of_firstText? {s : String} (h : firstText? v = some s) :
    ∃ w ∈ Tree.preorder v, isStringLiteral w = true ∧ w.field? "value" = some (.str s) := by
  obtain ⟨w, hw, hs⟩ := Option.bind_eq_some_iff.1 h
  have hliteral := List.find?_some hw
  obtain ⟨-, t, ht⟩ := exists_text_of_isStringLiteral hliteral
  rw [ht] at hs
  cases hs
  exact ⟨w, List.mem_of_find?_eq_some hw, hliteral, ht⟩

theorem firstText?_eq_none_iff :
    firstText? v = none ↔ ∀ w ∈ Tree.preorder v, isStringLiteral w = false := by
  cases hfind : (Tree.preorder v).find? isStringLiteral with
  | none =>
    have hnone : firstText? v = none := by rw [firstText?, hfind, Option.bind_none]
    simpa [hnone] using hfind
  | some w =>
    have hliteral := List.find?_some hfind
    obtain ⟨-, s, hs⟩ := exists_text_of_isStringLiteral hliteral
    rw [firstText?_of_find? hfind hs]
    refine iff_of_false (Option.some_ne_none s) fun hall => ?_
    rw [hall w (List.mem_of_find?_eq_some hfind)] at hliteral
    cases hliteral

def IsQuoted (literal : String) : Prop := literal.toList.head? = some '"'

instance (literal : String) : Decidable (IsQuoted literal) :=
  inferInstanceAs (Decidable (literal.toList.head? = some '"'))

/-- A literal as the compiler prints it: a text has its quotation marks, and the value of a number
is a text. -/
def isPrinted (v : Json) : Bool :=
  (!isStringLiteral v || (v.field? "value").any fun
    | .str s => decide (IsQuoted s)
    | _ => false) && (!isNumberNode v || (v.field? "value").any isText)

def AsPrinted (expr : Json) : Prop := ∀ v ∈ Tree.preorder expr, isPrinted v = true

instance (expr : Json) : Decidable (AsPrinted expr) :=
  inferInstanceAs (Decidable (∀ v ∈ Tree.preorder expr, isPrinted v = true))

theorem AsPrinted.of_mem (h : AsPrinted v) (hw : w ∈ Tree.preorder v) : AsPrinted w :=
  fun u hu => h u (Tree.preorder_subset hw hu)

theorem isQuoted_of_isPrinted {s : String} (h : isPrinted v = true)
    (hliteral : isStringLiteral v = true) (hs : v.field? "value" = some (.str s)) :
    IsQuoted s := by
  simp only [isPrinted, hliteral, hs] at h
  grind

theorem exists_text_of_isPrinted (h : isPrinted v = true) (hnumber : isNumberNode v = true) :
    ∃ s, v.field? "value" = some (.str s) := by
  have htext : (v.field? "value").any isText = true := by
    rw [isPrinted, hnumber] at h
    grind
  obtain ⟨value, hvalue, htext⟩ := (Option.any_eq_true _ _).1 htext
  cases value with
  | str s => exact ⟨s, hvalue⟩
  | _ => cases htext

theorem AsPrinted.isQuoted_firstText? {s : String} (h : AsPrinted v) (hs : firstText? v = some s) :
    IsQuoted s := by
  obtain ⟨w, hw, hliteral, hvalue⟩ := exists_of_firstText? hs
  exact isQuoted_of_isPrinted (h w hw) hliteral hvalue

theorem IsQuoted.ne_empty {s : String} (h : IsQuoted s) : s ≠ "" := by
  rintro rfl
  cases h

theorem AsPrinted.stringBelow?_eq (h : AsPrinted v) : stringBelow? v = firstText? v := by
  rw [stringBelow?, Tree.find?, Tree.nodes_eq_preorder]
  cases hfind : (Tree.preorder v).find? isStringLiteral with
  | none => rw [firstText?, hfind]; rfl
  | some w =>
    obtain ⟨-, s, hs⟩ := exists_text_of_isStringLiteral (List.find?_some hfind)
    have hfirst := firstText?_of_find? hfind hs
    rw [hfirst]
    simp [hs, (h.isQuoted_firstText? hfirst).ne_empty]

def takesText (pathTypes : List String) (type : String) : Bool :=
  Spelling.isText type || Spelling.isPath pathTypes type

theorem ofNode_of_text (h : AsPrinted v) (hform : formOf v = .text) :
    ofNode pathTypes type v = .ok ((firstText? v).or
      (if takesText pathTypes type && isConstruction v then some "\"\"" else none)) := by
  obtain ⟨htruth, hnumber, hsigned⟩ : isTruth v = false ∧ isNumberNode v = false ∧
      isSigned v = false := by
    rw [formOf] at hform
    grind
  rw [ofNode]
  split
  · next b hkind hvalue => simp [isTruth, hkind, hvalue] at htruth
  · rw [hnumber, if_neg Bool.false_ne_true]
    split
    · next sign hkind hsign => simp [isSigned, hkind, hsign] at hsigned
    · split
      · next s hkind hvalue => rw [firstText?_of_text hkind hvalue, Option.some_or]
      · rw [h.stringBelow?_eq, takesText]
        cases firstText? v with
        | none => rw [Option.none_or]
        | some s => rw [Option.some_or]

def IsNumeral (literal : String) : Prop := (numeral? literal.toList).isSome = true

instance (literal : String) : Decidable (IsNumeral literal) :=
  inferInstanceAs (Decidable ((numeral? literal.toList).isSome = true))

theorem isNumeral_of_numberLiteral? {s : String}
    (h : numberLiteral? (some (.str s)) = some literal) : IsNumeral literal := by
  rw [numberLiteral?] at h
  split at h
  · next hnumeral =>
    cases h
    rwa [IsNumeral, String.toList_ofList]
  · cases h

theorem sign?_eq_some {sign : Char} (h : sign? v = some sign) : sign = '+' ∨ sign = '-' := by
  rw [sign?] at h
  grind

theorem isObject_of_isNumberNode (h : isNumberNode v = true) : v.isObject = true := by
  rcases Bool.or_eq_true_iff.1 h with h | h <;>
    exact Tree.isObject_of_field? (Tree.field?_of_hasKind h)

theorem isNumeral_of_signed? {sign : Char} (h : AsPrinted v) (hsign : sign = '+' ∨ sign = '-')
    (hliteral : signed? sign v = .ok (some literal)) : IsNumeral literal := by
  rw [signed?] at hliteral
  split at hliteral
  · cases hliteral
  · next c rest hchildren =>
    obtain ⟨operand, hoperand, hliteral⟩ := Outcome.bind_eq_ok.1 hliteral
    split at hliteral
    · next hnumber =>
      obtain ⟨unsigned, hunsigned, rfl⟩ := Option.map_eq_some_iff.1 (Except.ok.inj hliteral)
      have hmem : operand ∈ Tree.preorder v :=
        Tree.preorder_subset_of_mem_children (by simp [hchildren])
          ((wraps_of_unwrap hoperand).mem_preorder (isObject_of_isNumberNode hnumber))
      obtain ⟨s, hs⟩ := exists_text_of_isPrinted (h operand hmem) hnumber
      rw [hs] at hunsigned
      have hnumeral := isNumeral_of_numberLiteral? hunsigned
      rw [IsNumeral] at hnumeral
      rw [IsNumeral, String.toList_ofList, numeral?_cons_sign hsign hnumeral]
      exact hnumeral
    · cases hliteral

theorem exists_numeral_of_number (h : AsPrinted v) (hform : formOf v = .number)
    (hliteral : ofNode pathTypes type v = .ok (some literal)) :
    ∃ numeral, IsNumeral numeral ∧ literal = forParam type numeral := by
  have hnumber : isNumberNode v = true ∨ isSigned v = true := by
    rw [formOf] at hform
    grind
  rcases hnumber with hnumber | hsigned
  · have hmem := Tree.mem_preorder_self (isObject_of_isNumberNode hnumber)
    obtain ⟨s, hs⟩ := exists_text_of_isPrinted (h v hmem) hnumber
    rw [ofNode_of_isNumberNode hnumber, hs, Except.ok.injEq, Option.map_eq_some_iff] at hliteral
    obtain ⟨numeral, hnumeral, rfl⟩ := hliteral
    exact ⟨numeral, isNumeral_of_numberLiteral? hnumeral, rfl⟩
  · rw [isSigned, Bool.and_eq_true, Option.isSome_iff_exists] at hsigned
    obtain ⟨hkind, sign, hsign⟩ := hsigned
    rw [ofNode_of_sign hkind hsign] at hliteral
    obtain ⟨found, hfound, hliteral⟩ := Outcome.map_eq_ok.1 hliteral
    obtain ⟨numeral, rfl, rfl⟩ := Option.map_eq_some_iff.1 hliteral
    exact ⟨numeral, isNumeral_of_signed? h (sign?_eq_some hsign) hfound, rfl⟩

/-- The literal has the type of a parameter that is carried so.  A handle is a number. -/
structure Fits (carrier : Carrier) (literal : String) : Prop where
  text : IsQuoted literal → carrier = .text
  truth : literal = "true" ∨ literal = "false" → carrier = .bool
  number : IsNumeral literal → carrier = .number ∨ carrier = .handle

/-- A number suits a Boolean parameter as well, for which it becomes a truth value. -/
def Form.Suits : Form → Carrier → Prop
  | .truth, carrier => carrier = .bool
  | .number, carrier => carrier = .bool ∨ carrier = .number ∨ carrier = .handle
  | .text, carrier => carrier = .text

theorem IsQuoted.not_isNumeral (h : IsQuoted literal) : ¬ IsNumeral literal := by
  intro hnumeral
  obtain ⟨r, hr⟩ : ∃ r, literal.toList = '"' :: r := List.head?_eq_some_iff.1 h
  obtain ⟨c, r', hsign, hc⟩ := isDecimalDigit_of_numeral? hnumeral
  rw [hr] at hsign
  cases hsign
  exact absurd hc (by decide)

theorem fits_of_isQuoted {carrier : Carrier} (h : IsQuoted literal) :
    Fits carrier literal ↔ carrier = .text := by
  constructor
  · exact fun hfits => hfits.text h
  · intro hcarrier
    refine ⟨fun _ => hcarrier, ?_, fun hnumeral => absurd hnumeral h.not_isNumeral⟩
    rintro (rfl | rfl) <;> exact absurd h (by decide)

theorem fits_of_isNumeral {carrier : Carrier} (h : IsNumeral literal) :
    Fits carrier literal ↔ carrier = .number ∨ carrier = .handle := by
  constructor
  · exact fun hfits => hfits.number h
  · intro hcarrier
    refine ⟨fun hquoted => absurd h hquoted.not_isNumeral, ?_, fun _ => hcarrier⟩
    rintro (rfl | rfl) <;> exact absurd h (by decide)

theorem fits_of_truth {carrier : Carrier} (h : literal = "true" ∨ literal = "false") :
    Fits carrier literal ↔ carrier = .bool := by
  constructor
  · exact fun hfits => hfits.truth h
  · intro hcarrier
    refine ⟨?_, fun _ => hcarrier, ?_⟩ <;> intro hother <;>
      rcases h with rfl | rfl <;> exact absurd hother (by decide)

variable {converter : Converter}

theorem enumByValue?_of_no_enums (h : converter.enums = []) (type : String) :
    converter.enumByValue? type = none := by
  simp [Converter.enumByValue?, Converter.resolve?, h]

theorem carrier_eq_bool_iff (hc : converter.enums = []) (hn : Spelling.normalize type = type) :
    converter.carrier type false = .bool ↔ Spelling.isBool type = true := by
  have hvoid : Spelling.isBool type = true → type ≠ "void" := by
    rintro h rfl
    exact absurd h (by decide)
  simp only [Converter.carrier, hn, enumByValue?_of_no_enums hc]
  grind

theorem extract_of_unwrap {expr : Json} (h : unwrap expr = .ok v) :
    extract pathTypes type expr = if v.isObject then ofNode pathTypes type v else .ok none := by
  rw [extract, h]
  rfl

theorem exists_of_extract {expr : Json} (h : extract pathTypes type expr = .ok (some literal)) :
    ∃ n, unwrap expr = .ok n ∧ n ∈ Tree.preorder expr ∧
      ofNode pathTypes type n = .ok (some literal) := by
  obtain ⟨n, hn, h⟩ := Outcome.bind_eq_ok.1 h
  split at h
  · next hobject => exact ⟨n, hn, (wraps_of_unwrap hn).mem_preorder hobject, h⟩
  · cases h

theorem truth_of_truth (hform : formOf v = .truth)
    (h : ofNode pathTypes type v = .ok (some literal)) :
    literal = "true" ∨ literal = "false" := by
  have htruth : isTruth v = true := by
    rw [formOf] at hform
    grind
  rw [isTruth, Bool.and_eq_true, Option.any_eq_true] at htruth
  obtain ⟨hkind, value, hvalue, hbool⟩ := htruth
  cases value with
  | bool b =>
    rw [ofNode_of_truth hkind hvalue] at h
    cases b with
    | true => exact .inl (Option.some.inj (Except.ok.inj h)).symm
    | false => exact .inr (Option.some.inj (Except.ok.inj h)).symm
  | _ => cases hbool

theorem isQuoted_of_text (hprinted : AsPrinted v) (hform : formOf v = .text)
    (h : ofNode pathTypes type v = .ok (some literal)) : IsQuoted literal := by
  rw [ofNode_of_text hprinted hform, Except.ok.injEq] at h
  cases hfirst : firstText? v with
  | some s =>
    rw [hfirst, Option.some_or] at h
    exact Option.some.inj h ▸ hprinted.isQuoted_firstText? hfirst
  | none =>
    rw [hfirst, Option.none_or] at h
    split at h
    · exact Option.some.inj h ▸ by decide
    · cases h

theorem fits_forParam {numeral : String} (h : IsNumeral numeral) (hc : converter.enums = [])
    (hn : Spelling.normalize type = type) :
    Fits (converter.carrier type false) (forParam type numeral) ↔
      Form.number.Suits (converter.carrier type false) := by
  have hbool := carrier_eq_bool_iff hc hn
  rw [forParam, Form.Suits]
  split
  · next htype =>
    have htruth : (if isZeroLiteral numeral then "false" else "true") = "true" ∨
        (if isZeroLiteral numeral then "false" else "true") = "false" := by
      split <;> simp
    rw [fits_of_truth htruth]
    simp [hbool.2 htype]
  · next htype =>
    rw [fits_of_isNumeral h]
    simp [mt hbool.1 htype]

/-- The literal of a default has the type of its parameter exactly when the form of the expression
suits that type.  The form of a call is that of a text as soon as a text occurs anywhere in it. -/
theorem literal_fits_iff (converter : Converter) (type literal : String) (expr : Json)
    (hc : converter.enums = []) (hn : Spelling.normalize type = type) (hexpr : AsPrinted expr)
    (h : extract converter.pathTypes type expr = .ok (some literal)) :
    ∃ n, unwrap expr = .ok n ∧ (Fits (converter.carrier type false) literal ↔
      (formOf n).Suits (converter.carrier type false)) := by
  obtain ⟨n, hunwrap, hmem, h⟩ := exists_of_extract h
  have hprinted := hexpr.of_mem hmem
  refine ⟨n, hunwrap, ?_⟩
  cases hform : formOf n with
  | truth => exact fits_of_truth (truth_of_truth hform h)
  | number =>
    obtain ⟨numeral, hnumeral, hliteral⟩ := exists_numeral_of_number hprinted hform h
    rw [hliteral]
    exact fits_forParam hnumeral hc hn
  | text => exact fits_of_isQuoted (isQuoted_of_text hprinted hform h)

open Casts (nodeOf)

def plainConverter : Converter := Converter.executive.withEnums []

def numberNode (text : String) : Json := nodeOf "IntegerLiteral" [("value", .str text)] []

def truthNode (b : Bool) : Json := nodeOf "CXXBoolLiteralExpr" [("value", .bool b)] []

def textNode (text : String) : Json := nodeOf "StringLiteral" [("value", .str text)] []

def castNode (operand : Json) : Json := nodeOf "ImplicitCastExpr" [] [operand]

def minusNode (operand : Json) : Json := nodeOf "UnaryOperator" [("opcode", .str "-")] [operand]

def minusOne : Json := castNode (minusNode (numberNode "1"))

theorem literal_fits_minusOne :
    plainConverter.enums = [] ∧ Spelling.normalize "const bool&" = "const bool&" ∧
      AsPrinted minusOne ∧
      extract plainConverter.pathTypes "const bool&" minusOne = .ok (some "true") ∧
      Fits (plainConverter.carrier "const bool&" false) "true" := by
  have hprinted : AsPrinted minusOne := by decide +kernel
  have hextract : extract plainConverter.pathTypes "const bool&" minusOne = .ok (some "true") := by
    decide +kernel
  obtain ⟨n, hn, hfits⟩ := literal_fits_iff plainConverter "const bool&" "true" minusOne rfl
    (by decide) hprinted hextract
  have hform : (unwrap minusOne).map formOf = .ok .number := by decide +kernel
  rw [hn] at hform
  refine ⟨rfl, by decide, hprinted, hextract, hfits.2 ?_⟩
  rw [Except.ok.inj hform]
  exact .inl rfl

def gainLookup : Json :=
  nodeOf "CallExpr" [] [nodeOf "DeclRefExpr" [] [], castNode (textNode "\"gain\"")]

def trueForNumber : Json := castNode (truthNode true)

theorem literal_not_fits_number :
    (AsPrinted gainLookup ∧
      extract plainConverter.pathTypes "double" gainLookup = .ok (some "\"gain\"") ∧
      ¬ Fits (plainConverter.carrier "double" false) "\"gain\"") ∧
    AsPrinted trueForNumber ∧
      extract plainConverter.pathTypes "int" trueForNumber = .ok (some "true") ∧
      ¬ Fits (plainConverter.carrier "int" false) "true" := by
  refine ⟨⟨by decide +kernel, by decide +kernel, fun h => ?_⟩, by decide +kernel,
    by decide +kernel, fun h => ?_⟩
  · cases h.text (by decide)
  · cases h.truth (.inl rfl)

end WasmBindings.DefaultValue
