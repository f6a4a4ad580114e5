import Mathlib.Algebra.Order.Field.Power
import Mathlib.Data.Rat.Cast.Order
import Mathlib.Tactic.FieldSimp
import Mathlib.Tactic.Positivity
import WasmBindings.Proofs.Text.Numeral

namespace WasmBindings.Text

inductive IsExponent : List Char → ℤ → Prop
  | absent : IsExponent [] 0
  | decimal {mark : Char} {s : List Char} {n : ℤ} (hmark : mark = 'e' ∨ mark = 'E')
      (hs : IsDecimal s n) : IsExponent (mark :: s) n
  | plus {mark : Char} {digits : List Char} (hmark : mark = 'e' ∨ mark = 'E') (hne : digits ≠ [])
      (h : ∀ c ∈ digits, c.isDigit = true) :
      IsExponent (mark :: '+' :: digits) (Nat.ofDigitChars 10 digits 0 : Nat)

inductive IsUnsigned : List Char → ℚ → Prop
  | whole {digits exponent : List Char} {e : ℤ} (hne : digits ≠ [])
      (h : ∀ c ∈ digits, c.isDigit = true) (he : IsExponent exponent e) :
      IsUnsigned (digits ++ exponent) (Nat.ofDigitChars 10 digits 0 * 10 ^ e)
  | point {digits fraction exponent : List Char} {e : ℤ} (hne : digits ≠ [])
      (h : ∀ c ∈ digits, c.isDigit = true) (hf : ∀ c ∈ fraction, c.isDigit = true)
      (he : IsExponent exponent e) :
      IsUnsigned (digits ++ '.' :: (fraction ++ exponent))
        ((Nat.ofDigitChars 10 digits 0 + Nat.ofDigitChars 10 fraction 0 / 10 ^ fraction.length)
          * 10 ^ e)

/-- The number that a text spells, with or without a sign. -/
inductive Denotes : List Char → ℚ → Prop
  | unsigned {s : List Char} {q : ℚ} (h : IsUnsigned s q) : Denotes s q
  | plus {s : List Char} {q : ℚ} (h : IsUnsigned s q) : Denotes ('+' :: s) q
  | minus {s : List Char} {q : ℚ} (h : IsUnsigned s q) : Denotes ('-' :: s) (-q)

theorem isDecimalDigit_of_isDigit {c : Char} (h : c.isDigit = true) : isDecimalDigit c = true := by
  rw [isDecimalDigit, digitValue?_of_isDigit h, Option.isSome_some]

theorem takeWhile_digits {digits : List Char} (h : ∀ c ∈ digits, c.isDigit = true)
    {rest : List Char} (hrest : ∀ c ∈ rest.head?, isDecimalDigit c = false) :
    (digits ++ rest).takeWhile isDecimalDigit = digits ∧
      (digits ++ rest).dropWhile isDecimalDigit = rest := by
  have hall : ∀ c ∈ digits, isDecimalDigit c = true :=
    fun c hc => isDecimalDigit_of_isDigit (h c hc)
  rw [List.takeWhile_append_of_pos hall, List.dropWhile_append_of_pos hall]
  cases rest with
  | nil => simp
  | cons c rest => simp [hrest c (by simp)]

theorem readDigits_append {digits : List Char} (hne : digits ≠ [])
    (h : ∀ c ∈ digits, c.isDigit = true) {rest : List Char}
    (hrest : ∀ c ∈ rest.head?, isDecimalDigit c = false) :
    readDigits (digits ++ rest) = some (digits, rest) := by
  obtain ⟨htake, hdrop⟩ := takeWhile_digits h hrest
  rw [readDigits, htake, hdrop]
  split
  · exact absurd rfl hne
  · rfl

theorem dropSign_of_isDigit {s : List Char} (h : ∀ c ∈ s.head?, c.isDigit = true) :
    dropSign s = s := by
  rw [dropSign.eq_def]
  split
  · exact absurd (h '-' rfl) (by decide)
  · exact absurd (h '+' rfl) (by decide)
  · rfl

theorem not_digit_mark {mark : Char} (h : mark = 'e' ∨ mark = 'E') (s : List Char) :
    ∀ c ∈ (mark :: s).head?, isDecimalDigit c = false := by
  rintro c ⟨⟩
  rcases h with rfl | rfl <;> decide

theorem IsExponent.not_digit {s : List Char} {e : ℤ} (h : IsExponent s e) :
    ∀ c ∈ s.head?, isDecimalDigit c = false := by
  cases h with
  | absent => simp
  | decimal hmark _ => exact not_digit_mark hmark _
  | plus hmark _ _ => exact not_digit_mark hmark _

theorem isDigit_head? {digits : List Char} (h : ∀ c ∈ digits, c.isDigit = true) :
    ∀ c ∈ digits.head?, c.isDigit = true :=
  fun c hc => h c (List.mem_of_mem_head? hc)

theorem IsExponent.exponentValue? {s : List Char} {e : ℤ} (h : IsExponent s e) :
    exponentValue? s = some e := by
  cases h with
  | absent => rfl
  | @decimal mark s n hmark hs =>
    rw [Text.exponentValue?, if_pos hmark]
    cases hs with
    | plain hne h =>
      have hsign : s.head? ≠ some '-' := fun hc => absurd (isDigit_head? h '-' hc) (by decide)
      simp only [dropSign_of_isDigit (isDigit_head? h), readDigits_of_isDigit hne h, if_neg hsign,
        decimalValue_of_isDigit h]
    | minus hne h =>
      simp only [dropSign, readDigits_of_isDigit hne h, List.head?_cons, if_true,
        decimalValue_of_isDigit h]
  | plus hmark hne h =>
    rw [Text.exponentValue?, if_pos hmark]
    simp [dropSign, readDigits_of_isDigit hne h, decimalValue_of_isDigit h]

theorem decimalValue_append {s t : List Char} (hs : ∀ c ∈ s, c.isDigit = true)
    (ht : ∀ c ∈ t, c.isDigit = true) :
    decimalValue (s ++ t) =
      10 ^ t.length * Nat.ofDigitChars 10 s 0 + Nat.ofDigitChars 10 t 0 := by
  have hall : ∀ c ∈ s ++ t, c.isDigit = true := by
    intro c hc
    rcases List.mem_append.1 hc with hc | hc
    · exact hs c hc
    · exact ht c hc
  rw [decimalValue_of_isDigit hall, Nat.ofDigitChars_append, Nat.ofDigitChars_eq_ofDigitChars_zero]

theorem IsUnsigned.isDigit_head? {s : List Char} {q : ℚ} (h : IsUnsigned s q) :
    ∀ c ∈ s.head?, c.isDigit = true := by
  intro c hc
  cases h with
  | whole hne h _ =>
    rw [List.head?_append_of_ne_nil _ hne] at hc
    exact h c (List.mem_of_mem_head? hc)
  | point hne h _ _ =>
    rw [List.head?_append_of_ne_nil _ hne] at hc
    exact h c (List.mem_of_mem_head? hc)

theorem IsUnsigned.numeral? {s : List Char} {q : ℚ} (h : IsUnsigned s q) :
    ∃ digits exponent, numeral? s = some (digits, exponent) ∧ digits * (10 : ℚ) ^ exponent = q := by
  have hsign := dropSign_of_isDigit h.isDigit_head?
  cases h with
  | @whole digits exponent e hne h he =>
    refine ⟨decimalValue digits, e, ?_, ?_⟩
    · rw [Text.numeral?, hsign, readDigits_append hne h he.not_digit]
      simp only [Option.bind_eq_bind, Option.bind_some]
      split
      · exact absurd he.exponentValue? (by simp [Text.exponentValue?])
      · simp [he.exponentValue?]
    · rw [decimalValue_of_isDigit h]
  | @point digits fraction exponent e hne h hf he =>
    refine ⟨decimalValue (digits ++ fraction), e - fraction.length, ?_, ?_⟩
    · obtain ⟨htake, hdrop⟩ := takeWhile_digits hf he.not_digit
      rw [Text.numeral?, hsign, readDigits_append hne h (by simp; decide)]
      simp [htake, hdrop, he.exponentValue?]
    · rw [decimalValue_append h hf, zpow_sub₀ (by norm_num), zpow_natCast]
      push_cast
      field_simp

theorem IsUnsigned.dropWhile_sign {s : List Char} {q : ℚ} (h : IsUnsigned s q) :
    (s.dropWhile fun c => c == '+' || c == '-') = s := by
  obtain ⟨digits, exponent, hnumeral, -⟩ := h.numeral?
  rw [Text.dropWhile_sign (by rw [hnumeral, Option.isSome_some]),
    dropSign_of_isDigit h.isDigit_head?]

theorem IsUnsigned.numeral?_cons {sign : Char} (hsign : sign = '+' ∨ sign = '-') {s : List Char}
    {q : ℚ} (h : IsUnsigned s q) : Text.numeral? (sign :: s) = Text.numeral? s := by
  apply numeral?_congr
  rw [dropSign_cons hsign, dropSign_of_isDigit h.isDigit_head?]

theorem IsUnsigned.nonneg {s : List Char} {q : ℚ} (h : IsUnsigned s q) : 0 ≤ q := by
  obtain ⟨digits, exponent, -, rfl⟩ := h.numeral?
  positivity

theorem Denotes.numeral? {s : List Char} {q : ℚ} (h : Denotes s q) :
    ∃ digits exponent, numeral? s = some (digits, exponent) ∧
      digits * (10 : ℚ) ^ exponent = |q| := by
  cases h with
  | unsigned h =>
    rw [abs_of_nonneg h.nonneg]
    exact h.numeral?
  | plus h =>
    rw [abs_of_nonneg h.nonneg, h.numeral?_cons (.inl rfl)]
    exact h.numeral?
  | minus h =>
    rw [abs_neg, abs_of_nonneg h.nonneg, h.numeral?_cons (.inr rfl)]
    exact h.numeral?

end WasmBindings.Text
