import Mathlib.Data.List.Basic
import Mathlib.Data.List.TakeWhile
import WasmBindings.Text.Numeral

namespace WasmBindings.Text

theorem not_mem_toDigits {c : Char} (h : c.isDigit = false) (n : Nat) :
    c ∉ Nat.toDigits 10 n := by
  intro hmem
  rw [Nat.isDigit_of_mem_toDigits (by decide) (by decide) hmem] at h
  cases h

theorem eq_of_toString_eq {m n : Nat} (h : toString m = toString n) : m = n := by
  have hdigits : Nat.toDigits 10 m = Nat.toDigits 10 n := by
    rw [← Nat.toList_repr, ← Nat.toList_repr]
    exact congrArg String.toList h
  rw [← Nat.ofDigitChars_ten_toDigits (n := m), hdigits, Nat.ofDigitChars_ten_toDigits]

theorem digitValue?_of_isDigit {c : Char} (h : c.isDigit = true) :
    digitValue? c = some (c.toNat - '0'.toNat) := by
  have hbounds : 48 ≤ c.toNat ∧ c.toNat ≤ 57 := by
    simpa [Char.isDigit, UInt32.le_iff_toNat_le] using h
  have hfirst : (48 ≤ c.toNat && c.toNat < 48 + 10) = true := by
    simp only [Bool.and_eq_true, decide_eq_true_eq]
    omega
  simp [digitValue?, digitZeros, List.find?_cons_of_pos, hfirst]

theorem decimalValue_of_isDigit {s : List Char} (h : ∀ c ∈ s, c.isDigit = true) :
    decimalValue s = Nat.ofDigitChars 10 s 0 := by
  rw [decimalValue, Nat.ofDigitChars]
  apply List.foldl_ext
  intro n c hc
  rw [digitValue?_of_isDigit (h c hc), Option.getD_some]

theorem readDigits_of_isDigit {s : List Char} (hs : s ≠ []) (h : ∀ c ∈ s, c.isDigit = true) :
    readDigits s = some (s, []) := by
  have hdigit : ∀ c ∈ s, isDecimalDigit c = true := by
    intro c hc
    rw [isDecimalDigit, digitValue?_of_isDigit (h c hc), Option.isSome_some]
  have htake : s.takeWhile isDecimalDigit = s := List.takeWhile_eq_self_iff.2 hdigit
  have hdrop : s.dropWhile isDecimalDigit = [] := List.dropWhile_eq_nil_iff.2 hdigit
  rw [readDigits, htake, hdrop]
  split
  · exact absurd rfl hs
  · rfl

theorem unsigned?_of_isDigit {s : List Char} (hs : s ≠ []) (h : ∀ c ∈ s, c.isDigit = true) :
    integer?.unsigned? s = some (Nat.ofDigitChars 10 s 0) := by
  rw [integer?.unsigned?, readDigits_of_isDigit hs h]
  simp [decimalValue_of_isDigit h]

inductive IsDecimal : List Char → Int → Prop
  | plain {digits : List Char} (hne : digits ≠ []) (h : ∀ c ∈ digits, c.isDigit = true) :
      IsDecimal digits (Nat.ofDigitChars 10 digits 0 : Nat)
  | minus {digits : List Char} (hne : digits ≠ []) (h : ∀ c ∈ digits, c.isDigit = true) :
      IsDecimal ('-' :: digits) (-(Nat.ofDigitChars 10 digits 0 : Nat))

theorem IsDecimal.integer? {s : List Char} {n : Int} (h : IsDecimal s n) :
    integer? s = some n := by
  cases h with
  | plain hne h =>
    rw [Text.integer?.eq_def]
    split
    · exact absurd (h '-' List.mem_cons_self) (by decide)
    · rw [unsigned?_of_isDigit hne h]
      rfl
  | minus hne h =>
    rw [Text.integer?, unsigned?_of_isDigit hne h]
    rfl

theorem isDecimal_toDigits (n : Nat) : IsDecimal (Nat.toDigits 10 n) n := by
  have hdecimal := IsDecimal.plain (Nat.toDigits_ne_nil (n := n) (b := 10)) fun c hc =>
    Nat.isDigit_of_mem_toDigits (by decide) (by decide) hc
  rwa [Nat.ofDigitChars_ten_toDigits] at hdecimal

theorem isDecimal_toString (n : Int) : IsDecimal (toString n).toList n := by
  cases n with
  | ofNat n =>
    have hdigits : (toString (Int.ofNat n)).toList = Nat.toDigits 10 n := by
      change (toString n).toList = _
      rw [Nat.toString_eq_ofList_toDigits, String.toList_ofList]
    rw [hdigits]
    exact isDecimal_toDigits n
  | negSucc n =>
    have hdigits : (toString (Int.negSucc n)).toList = '-' :: Nat.toDigits 10 (n + 1) := by
      change ("-" ++ toString (n + 1)).toList = _
      rw [String.toList_append, Nat.toString_eq_ofList_toDigits, String.toList_ofList,
        String.toList_ofList, List.singleton_append]
    have hdecimal := IsDecimal.minus (Nat.toDigits_ne_nil (n := n + 1) (b := 10)) fun c hc =>
      Nat.isDigit_of_mem_toDigits (by decide) (by decide) hc
    rw [Nat.ofDigitChars_ten_toDigits] at hdecimal
    rw [hdigits]
    exact hdecimal

theorem dropSign_cons {sign : Char} (h : sign = '+' ∨ sign = '-') (s : List Char) :
    dropSign (sign :: s) = s := by
  rcases h with rfl | rfl <;> rfl

theorem numeral?_congr {s t : List Char} (h : dropSign s = dropSign t) :
    numeral? s = numeral? t := by
  simp only [numeral?, h]

theorem isDecimalDigit_of_numeral? {s : List Char} (h : (numeral? s).isSome = true) :
    ∃ c r, dropSign s = c :: r ∧ isDecimalDigit c = true := by
  cases hs : dropSign s with
  | nil => simp [numeral?, hs, readDigits] at h
  | cons c r =>
    refine ⟨c, r, rfl, ?_⟩
    by_contra hc
    simp [numeral?, hs, readDigits, hc] at h

theorem dropWhile_sign {s : List Char} (h : (numeral? s).isSome = true) :
    (s.dropWhile fun c => c == '+' || c == '-') = dropSign s := by
  obtain ⟨c, r, hs, hc⟩ := isDecimalDigit_of_numeral? h
  have hsign : ¬ (c == '+' || c == '-') = true := by
    rw [Bool.or_eq_true, beq_iff_eq, beq_iff_eq]
    rintro (rfl | rfl) <;> exact absurd hc (by decide)
  have hstop : ((c :: r).dropWhile fun c => c == '+' || c == '-') = c :: r :=
    List.dropWhile_cons_of_neg hsign
  rw [dropSign.eq_def] at hs ⊢
  split at hs
  · rw [List.dropWhile_cons_of_pos (by decide), hs, hstop]
  · rw [List.dropWhile_cons_of_pos (by decide), hs, hstop]
  · rw [hs, hstop]

theorem numeral?_cons_sign {sign : Char} (hsign : sign = '+' ∨ sign = '-') {s : List Char}
    (h : (numeral? s).isSome = true) :
    numeral? (sign :: s.dropWhile fun c => c == '+' || c == '-') = numeral? s := by
  rw [dropWhile_sign h]
  exact numeral?_congr (dropSign_cons hsign _)

end WasmBindings.Text
