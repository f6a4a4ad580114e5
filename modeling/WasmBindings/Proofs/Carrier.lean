import WasmBindings.Conversion
import WasmBindings.Proofs.Cpp.Spelling

/-!
The carrier of a type against the native wrapper.  The carrier looks for an enumeration before it
looks for anything else, and the wrapper looks for one last; they agree when no enumeration has
the spelling of a type that needs none.  Results agree but for constant references.
-/

namespace WasmBindings

def Carrier.isArithmetic : Carrier → Bool
  | .number | .enumeration _ => true
  | _ => false

namespace Converter

open Text

def plainTypes : List String := "bool" :: "std::string" :: Spelling.numericTypes

/-- The enumerations of the converter have no spelling in common with other types. -/
structure Separate (c : Converter) : Prop where
  plain : ∀ s ∈ plainTypes, c.resolve? s = none
  path : ∀ s, Spelling.isPath c.pathTypes s = true → c.resolve? s = none

theorem resolve?_congr (c : Converter) {s t : String}
    (h : Spelling.enumKey s = Spelling.enumKey t) : c.resolve? s = c.resolve? t := by
  simp only [resolve?, spellings, h]

theorem enumKey_plainTypes : ∀ s ∈ plainTypes, 'm' ∉ withoutBlanks s.toList ∧
    '*' ∉ withoutBlanks s.toList ∧ Spelling.enumKey s = String.ofList (withoutBlanks s.toList) := by
  decide

variable {c : Converter} {type : String}

theorem Separate.resolve?_of_plain (hc : c.Separate) {s : String} (hs : s ∈ plainTypes)
    (h : withoutBlanks (Spelling.bare type).toList = withoutBlanks s.toList) :
    c.resolve? type = none := by
  obtain ⟨hm, hstar, hkey⟩ := enumKey_plainTypes s hs
  have htype : Spelling.enumKey type = Spelling.enumKey s := by
    rw [hkey]
    exact Spelling.enumKey_of_bare h hm hstar
  rw [c.resolve?_congr htype]
  exact hc.plain s hs

theorem Separate.resolve?_of_bare (hc : c.Separate) {s : String} (hs : s ∈ plainTypes)
    (h : Spelling.bare type = s) : c.resolve? type = none := by
  apply hc.resolve?_of_plain hs
  rw [h]

theorem Separate.resolve?_of_isNumeric (hc : c.Separate) (h : Spelling.isNumeric type = true) :
    c.resolve? type = none := by
  have hs := List.mem_cons_of_mem "bool" (List.mem_cons_of_mem "std::string"
    (Spelling.mem_numericTypes h))
  apply hc.resolve?_of_plain hs
  rw [String.toList_ofList, withoutBlanks_collapse]

theorem resolve?_of_enumByValue? {d : EnumDef} (h : c.enumByValue? type = some d) :
    c.resolve? type = some d := by
  rw [enumByValue?] at h
  split at h
  · cases h
  · split at h
    · cases h
    · exact h

theorem Separate.tests_of_enumByValue? (hc : c.Separate) {d : EnumDef}
    (h : c.enumByValue? type = some d) :
    Spelling.isBool type = false ∧ Spelling.isNumeric type = false ∧
      Spelling.isText type = false ∧ Spelling.isPath c.pathTypes type = false := by
  have hne : c.resolve? type ≠ none := by
    rw [resolve?_of_enumByValue? h]
    exact Option.some_ne_none d
  refine ⟨?_, ?_, ?_, ?_⟩ <;> apply Bool.eq_false_iff.2 <;> intro ht <;> apply hne
  · exact hc.resolve?_of_bare (by simp [plainTypes]) (beq_iff_eq.1 ht)
  · exact hc.resolve?_of_isNumeric ht
  · exact hc.resolve?_of_bare (by simp [plainTypes]) (beq_iff_eq.1 ht)
  · exact hc.path type ht

theorem Separate.cppParam_of_isArithmetic (hc : c.Separate) (hn : Spelling.normalize type = type)
    (h : (c.carrier type false).isArithmetic = true) :
    String.ofList (collapse (c.cppParam type).toList) ∈ Spelling.numericTypes := by
  cases he : c.enumByValue? type with
  | some d =>
    obtain ⟨hbool, hnumber, htext, hpath⟩ := hc.tests_of_enumByValue? he
    have hint : c.cppParam type = "int" := by
      simp [cppParam, hbool, hnumber, htext, hpath, he]
    rw [hint]
    decide
  | none =>
    simp only [carrier, hn, he] at h
    have hnumber : Spelling.isBool type = false ∧ Spelling.isNumeric type = true := by
      grind [Carrier.isArithmetic]
    have hbare : c.cppParam type = Spelling.bare type := by
      simp [cppParam, hnumber]
    rw [hbare]
    exact Spelling.mem_numericTypes hnumber.2

def trimMode : EnumDef :=
  { tsName := "TrimMode", items := [⟨.str "tLongitudinal", 0⟩, ⟨.str "tFull", 1⟩],
    kind := .enumeration, simpleName := "TrimMode", qualifiedName := "JSBSim::TrimMode",
    typeNames := ["TrimMode"], methodName := "" }

def executive : Converter :=
  { namespaceName := "JSBSim", className := "FGFDMExec", pathTypes := Spelling.defaultPathTypes,
    passthrough := [], qualifiedNames := [],
    enums := [("TrimMode", trimMode), ("JSBSim::TrimMode", trimMode)] }

structure ConstantReference (c : Converter) (type : String) : Prop where
  reference : Spelling.isReference type = true
  constant : Spelling.isConst type = true
  direct : Spelling.isPointer type = false
  known : ∃ d, c.resolve? type = some d

theorem carrier_eq_enumeration_iff (hn : Spelling.normalize type = type) {isReturn : Bool}
    {d : EnumDef} : c.carrier type isReturn = .enumeration d ↔ c.enumByValue? type = some d := by
  rw [carrier, hn]
  cases c.enumByValue? type with
  | some e => simp
  | none =>
    simp only [reduceCtorEq, iff_false]
    repeat' split
    all_goals exact Carrier.noConfusion

theorem call_ne_cast (call : String) :
    "toJsValue(" ++ call ++ ")" ≠ "toJsValue(static_cast<int>(" ++ call ++ "))" := by
  intro h
  have hlength := congrArg (·.toList.length) h
  simp at hlength

theorem cppResult_eq_cast_iff (call : String) :
    c.cppResult type call = "toJsValue(static_cast<int>(" ++ call ++ "))" ↔
      Spelling.isReference type = false ∧ ∃ d, c.enumByValue? type = some d := by
  rw [cppResult, ← Option.isSome_iff_exists]
  split
  · next h => simpa using h
  · next h => simpa [call_ne_cast] using h

theorem constantReference_iff : c.ConstantReference type ↔
    Spelling.isReference type = true ∧ ∃ d, c.enumByValue? type = some d := by
  constructor
  · rintro ⟨href, hconst, hptr, hd⟩
    refine ⟨href, ?_⟩
    simpa [enumByValue?, hptr, hconst] using hd
  · rintro ⟨href, d, hd⟩
    refine ⟨href, ?_, ?_, d, resolve?_of_enumByValue? hd⟩
    · by_contra hconst
      simp [enumByValue?, href, hconst] at hd
    · by_contra hptr
      simp [enumByValue?, hptr] at hd

/-- The carrier of a result is an enumeration exactly when the result is handed over as an
integer, unless it is a constant reference.  Such a reference has an enumeration for carrier, and
is handed over as it is. -/
theorem enumeration_result (c : Converter) (type call : String)
    (hn : Spelling.normalize type = type) :
    (¬ c.ConstantReference type → ((∃ d, c.carrier type true = .enumeration d) ↔
        c.cppResult type call = "toJsValue(static_cast<int>(" ++ call ++ "))")) ∧
      (c.ConstantReference type → (∃ d, c.carrier type true = .enumeration d) ∧
        c.cppResult type call = "toJsValue(" ++ call ++ ")") := by
  simp only [carrier_eq_enumeration_iff hn, constantReference_iff]
  constructor
  · intro hplain
    rw [cppResult_eq_cast_iff]
    constructor
    · intro hd
      exact ⟨Bool.eq_false_iff.2 fun href => hplain ⟨href, hd⟩, hd⟩
    · exact And.right
  · rintro ⟨href, hd⟩
    refine ⟨hd, ?_⟩
    simp [cppResult, href]

theorem enumeration_result_constantReference :
    Spelling.normalize "const TrimMode&" = "const TrimMode&" ∧
      ¬ ((∃ d, executive.carrier "const TrimMode&" true = .enumeration d) ↔
        executive.cppResult "const TrimMode&" "self.GetTrimMode()" =
          "toJsValue(static_cast<int>(" ++ "self.GetTrimMode()" ++ "))") := by
  refine ⟨by decide, fun h => ?_⟩
  have hcast := h.1 ⟨trimMode, rfl⟩
  exact absurd hcast (by decide)

theorem enumeration_result_trimMode :
    Spelling.normalize "TrimMode" = "TrimMode" ∧ ¬ executive.ConstantReference "TrimMode" ∧
      ((∃ d, executive.carrier "TrimMode" true = .enumeration d) ↔
        executive.cppResult "TrimMode" "self.GetTrimMode()" =
          "toJsValue(static_cast<int>(" ++ "self.GetTrimMode()" ++ "))") := by
  have hvalue : ¬ executive.ConstantReference "TrimMode" := fun h => absurd h.reference (by decide)
  exact ⟨by decide, hvalue,
    (enumeration_result executive "TrimMode" "self.GetTrimMode()" (by decide)).1 hvalue⟩

end Converter

end WasmBindings
