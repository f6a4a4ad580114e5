import WasmBindings.Proofs.Binary64
import WasmBindings.Proofs.DefaultValue
import WasmBindings.Proofs.Text.Decimal

namespace WasmBindings.DefaultValue

open Text

variable {v w expr : Json} {kind type literal : String} {pathTypes : List String} {q : ℚ}

structure IsNumber (v : Json) (kind : String) (q : ℚ) : Prop where
  kind : Tree.hasKind kind v = true
  value : ∃ s, v.field? "value" = some (.str s) ∧ IsUnsigned (trim s.toList) q

structure IsSign (v : Json) (sign : Char) (operand : Json) : Prop where
  kind : Tree.hasKind "UnaryOperator" v = true
  opcode : v.fieldIs "opcode" (String.singleton sign) = true
  operand : ∃ rest, Tree.children v = operand :: rest

/-- A number with at most one sign and with wrappers around both. -/
inductive Spells (kind : String) : Json → ℚ → Prop
  | plain {expr v : Json} {q : ℚ} (hv : Wraps expr v) (h : IsNumber v kind q) :
      Spells kind expr q
  | plus {expr v c w : Json} {q : ℚ} (hv : Wraps expr v) (hsign : IsSign v '+' c)
      (hw : Wraps c w) (h : IsNumber w kind q) : Spells kind expr q
  | minus {expr v c w : Json} {q : ℚ} (hv : Wraps expr v) (hsign : IsSign v '-' c)
      (hw : Wraps c w) (h : IsNumber w kind q) : Spells kind expr (-q)

def numberKinds : List String := ["IntegerLiteral", "FloatingLiteral"]

theorem isNumberNode_of_hasKind (hkind : kind ∈ numberKinds) (h : Tree.hasKind kind v = true) :
    isNumberNode v = true := by
  rw [isNumberNode, Bool.or_eq_true]
  rcases List.mem_pair.1 hkind with rfl | rfl
  · exact .inl h
  · exact .inr h

theorem not_mem_wrapperKinds (hkind : kind ∈ numberKinds) : kind ∉ wrapperKinds := by
  rcases List.mem_pair.1 hkind with rfl | rfl <;> decide

theorem extract_of_wraps (hv : Wraps expr v) (h : Tree.hasKind kind v = true)
    (hkind : kind ∉ wrapperKinds) : extract pathTypes type expr = ofNode pathTypes type v := by
  have hobject := Tree.isObject_of_field? (Tree.field?_of_hasKind h)
  rw [extract_of_unwrap (hv.unwrap_eq.trans (unwrap_of_hasKind h hkind)), if_pos hobject]

theorem IsNumber.numberLiteral? (h : IsNumber v kind q) :
    ∃ s, IsUnsigned s q ∧ numberLiteral? (v.field? "value") = some (String.ofList s) := by
  obtain ⟨s, hs, hunsigned⟩ := h.value
  obtain ⟨digits, exponent, hnumeral, -⟩ := hunsigned.numeral?
  refine ⟨trim s.toList, hunsigned, ?_⟩
  rw [hs, DefaultValue.numberLiteral?]
  simp only [hnumeral, Option.isSome_some, if_true]

theorem IsSign.sign? {sign : Char} {c : Json} (h : IsSign v sign c)
    (hsign : sign = '+' ∨ sign = '-') : sign? v = some sign := by
  have hopcode := Json.field?_of_fieldIs h.opcode
  rcases hsign with rfl | rfl <;> simp [DefaultValue.sign?, Json.fieldIs, hopcode]

theorem IsSign.signed? {sign : Char} {c : Json} (h : IsSign v sign c) (hkind : kind ∈ numberKinds)
    (hw : Wraps c w) (hnumber : IsNumber w kind q) :
    ∃ s, IsUnsigned s q ∧ signed? sign v = .ok (some (String.ofList (sign :: s))) := by
  obtain ⟨rest, hchildren⟩ := h.operand
  obtain ⟨s, hs, hliteral⟩ := hnumber.numberLiteral?
  have hunwrap := hw.unwrap_eq.trans (unwrap_of_hasKind hnumber.kind (not_mem_wrapperKinds hkind))
  refine ⟨s, hs, ?_⟩
  rw [DefaultValue.signed?, hchildren]
  simp [hunwrap, bind, Except.bind, pure, Except.pure, hliteral, hs.dropWhile_sign,
    isNumberNode_of_hasKind hkind hnumber.kind]

theorem IsSign.exists_extract {sign : Char} {c : Json} (h : IsSign v sign c)
    (hsign : sign = '+' ∨ sign = '-') (hkind : kind ∈ numberKinds) (hv : Wraps expr v)
    (hw : Wraps c w) (hnumber : IsNumber w kind q) :
    ∃ s, IsUnsigned s q ∧ extract pathTypes type expr =
      .ok (some (forParam type (String.ofList (sign :: s)))) := by
  obtain ⟨s, hs, hliteral⟩ := h.signed? hkind hw hnumber
  refine ⟨s, hs, ?_⟩
  rw [extract_of_wraps hv h.kind (by decide), ofNode_of_sign h.kind (h.sign? hsign), hliteral]
  rfl

theorem Spells.exists_literal (h : Spells kind expr q) (hkind : kind ∈ numberKinds)
    (pathTypes : List String) (type : String) :
    ∃ literal : String, Denotes literal.toList q ∧
      extract pathTypes type expr = .ok (some (forParam type literal)) := by
  cases h with
  | plain hv hnumber =>
    obtain ⟨s, hs, hliteral⟩ := hnumber.numberLiteral?
    refine ⟨String.ofList s, .unsigned (by rwa [String.toList_ofList]), ?_⟩
    rw [extract_of_wraps hv hnumber.kind (not_mem_wrapperKinds hkind),
      ofNode_of_isNumberNode (isNumberNode_of_hasKind hkind hnumber.kind), hliteral]
    rfl
  | plus hv hoperator hw hnumber =>
    obtain ⟨s, hs, hextract⟩ := hoperator.exists_extract (.inl rfl) hkind hv hw hnumber
    refine ⟨String.ofList ('+' :: s), ?_, hextract⟩
    rw [String.toList_ofList]
    exact .plus hs
  | minus hv hoperator hw hnumber =>
    obtain ⟨s, hs, hextract⟩ := hoperator.exists_extract (.inr rfl) hkind hv hw hnumber
    refine ⟨String.ofList ('-' :: s), ?_, hextract⟩
    rw [String.toList_ofList]
    exact .minus hs

theorem isZeroLiteral_iff (h : Denotes literal.toList q) :
    isZeroLiteral literal = true ↔ |q| ≤ 2 ^ (-1075 : ℤ) := by
  obtain ⟨digits, exponent, hnumeral, hvalue⟩ := h.numeral?
  rw [isZeroLiteral, hnumeral, ← hvalue]
  exact Binary64.isZero_ofDecimal_iff false digits exponent

theorem abs_intCast_le_iff (n : ℤ) : |(n : ℚ)| ≤ 2 ^ (-1075 : ℤ) ↔ n = 0 := by
  constructor
  · intro h
    have hsmall : |(n : ℚ)| < 1 := h.trans_lt (zpow_lt_one_of_neg₀ one_lt_two (by norm_num))
    exact Int.abs_lt_one_iff.1 (by exact_mod_cast hsmall)
  · rintro rfl
    rw [Int.cast_zero, abs_zero]
    positivity

/-- The literal of a number denotes its value.  For a Boolean parameter it is a truth value, false
for zero and for numbers too small for floating point; no whole number but zero is so small. -/
theorem number_default (pathTypes : List String) (type kind : String) (expr : Json) (q : ℚ)
    (hkind : kind ∈ numberKinds) (h : Spells kind expr q) :
    (Spelling.isBool type = false → ∃ literal : String,
        extract pathTypes type expr = .ok (some literal) ∧ Denotes literal.toList q) ∧
      (Spelling.isBool type = true → extract pathTypes type expr =
          .ok (some (if |q| ≤ 2 ^ (-1075 : ℤ) then "false" else "true")) ∧
        ∀ n : ℤ, q = n → extract pathTypes type expr =
          .ok (some (if n = 0 then "false" else "true"))) := by
  obtain ⟨literal, hdenotes, hextract⟩ := h.exists_literal hkind pathTypes type
  constructor
  · intro htype
    rw [forParam, htype, if_neg Bool.false_ne_true] at hextract
    exact ⟨literal, hextract, hdenotes⟩
  · intro htype
    simp only [forParam, htype, if_true, isZeroLiteral_iff hdenotes] at hextract
    refine ⟨hextract, ?_⟩
    rintro n rfl
    simpa only [abs_intCast_le_iff] using hextract

def minusQuarter : Json :=
  castNode (minusNode (Casts.nodeOf "ParenExpr" []
    [Casts.nodeOf "FloatingLiteral" [("value", .str "2.5e-1")] []]))

theorem isUnsigned_quarter : IsUnsigned "2.5e-1".toList (1 / 4) := by
  have hexponent : IsExponent ['e', '-', '1'] (-1) :=
    .decimal (.inl rfl) (.minus (by decide) (List.all_eq_true.1 rfl))
  have hpoint : IsUnsigned (['2'] ++ '.' :: (['5'] ++ ['e', '-', '1'])) _ :=
    .point (by decide) (List.all_eq_true.1 rfl) (List.all_eq_true.1 rfl) hexponent
  have hvalue : ((Nat.ofDigitChars 10 ['2'] 0 : ℕ) + (Nat.ofDigitChars 10 ['5'] 0 : ℕ) /
      10 ^ ['5'].length) * 10 ^ (-1 : ℤ) = (1 / 4 : ℚ) := by
    have htwo : Nat.ofDigitChars 10 ['2'] 0 = 2 := by decide
    have hfive : Nat.ofDigitChars 10 ['5'] 0 = 5 := by decide
    rw [htwo, hfive]
    norm_num
  rwa [hvalue] at hpoint

theorem spells_minusQuarter : Spells "FloatingLiteral" minusQuarter (-(1 / 4)) := by
  have hcast : Tree.hasKind "ImplicitCastExpr" minusQuarter = true := rfl
  have hparen (operand : Json) :
      Tree.hasKind "ParenExpr" (Casts.nodeOf "ParenExpr" [] [operand]) = true := rfl
  refine .minus (.step (by decide) hcast rfl (.refl _)) ⟨rfl, rfl, [], rfl⟩
    (.step (by decide) (hparen _) rfl (.refl _)) ⟨rfl, "2.5e-1", rfl, ?_⟩
  exact isUnsigned_quarter

theorem number_default_minusQuarter :
    "FloatingLiteral" ∈ numberKinds ∧ Spells "FloatingLiteral" minusQuarter (-(1 / 4)) ∧
      Spelling.isBool "double" = false ∧ ∃ literal : String,
        extract Spelling.defaultPathTypes "double" minusQuarter = .ok (some literal) ∧
          Denotes literal.toList (-(1 / 4)) :=
  ⟨by decide, spells_minusQuarter, by decide,
    (number_default Spelling.defaultPathTypes "double" "FloatingLiteral" minusQuarter (-(1 / 4))
      (by decide) spells_minusQuarter).1 (by decide)⟩

theorem number_default_tinyNumber :
    Spells "IntegerLiteral" (numberNode "1e-999") (10 ^ (-999 : ℤ)) ∧ (10 : ℚ) ^ (-999 : ℤ) ≠ 0 ∧
      Spelling.isBool "bool" = true ∧
      extract Spelling.defaultPathTypes "bool" (numberNode "1e-999") = .ok (some "false") := by
  have hexponent : IsExponent ['e', '-', '9', '9', '9'] (-999) :=
    .decimal (.inl rfl) (.minus (by decide) (List.all_eq_true.1 rfl))
  have hwhole : IsUnsigned (['1'] ++ ['e', '-', '9', '9', '9']) _ :=
    .whole (by decide) (List.all_eq_true.1 rfl) hexponent
  have hvalue : ((Nat.ofDigitChars 10 ['1'] 0 : ℕ) : ℚ) * 10 ^ (-999 : ℤ) = 10 ^ (-999 : ℤ) := by
    simp [Nat.ofDigitChars]
  rw [hvalue] at hwhole
  exact ⟨.plain (.refl _) ⟨rfl, "1e-999", rfl, hwhole⟩, zpow_ne_zero _ (by norm_num), by decide,
    by decide +kernel⟩

end WasmBindings.DefaultValue
