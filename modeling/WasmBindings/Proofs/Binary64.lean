import Mathlib.Algebra.Order.Field.Power
import Mathlib.Data.Rat.Cast.Order
import Mathlib.Tactic.FieldSimp
import Mathlib.Tactic.Linarith
import Mathlib.Tactic.NormNum
import Mathlib.Tactic.Positivity
import WasmBindings.Binary64

namespace WasmBindings.Binary64

variable {num den : Nat}

theorem scaled_value {base : Nat} (hbase : base ≠ 0) (num den : Nat) (e : Int) :
    ((scaled base num den e).1 : ℚ) / (scaled base num den e).2 = num / den / (base : ℚ) ^ e := by
  have hpow : (base : ℚ) ^ e.natAbs ≠ 0 := pow_ne_zero _ (by exact_mod_cast hbase)
  rw [scaled]
  split
  · next he =>
    have hneg : e = -(e.natAbs : ℤ) := by omega
    rw [hneg, zpow_neg, zpow_natCast, Int.natAbs_neg, Int.natAbs_natCast]
    push_cast [Nat.pow_eq]
    field_simp
  · next he =>
    have hpos : e = (e.natAbs : ℤ) := by omega
    rw [hpos, zpow_natCast, Int.natAbs_natCast]
    push_cast [Nat.pow_eq]
    field_simp

theorem scaled_pos {base : Nat} (hbase : base ≠ 0) (hden : den ≠ 0) (num : Nat) (e : Int) :
    0 < (scaled base num den e).2 := by
  have hpow : 0 < base ^ e.natAbs := Nat.pow_pos (Nat.pos_of_ne_zero hbase)
  rw [scaled]
  split
  · exact Nat.pos_of_ne_zero hden
  · exact Nat.mul_pos (Nat.pos_of_ne_zero hden) hpow

theorem roundQuotient_eq_zero_iff (hden : 0 < den) :
    roundQuotient num den = 0 ↔ 2 * num ≤ den := by
  have hsum := Nat.div_add_mod num den
  have hmod := Nat.mod_lt num hden
  simp only [roundQuotient]
  rcases Nat.eq_zero_or_pos (num / den) with hq | hq
  · rw [hq] at hsum ⊢
    repeat' split
    all_goals omega
  · have hle : den ≤ den * (num / den) := Nat.le_mul_of_pos_right den hq
    repeat' split
    all_goals omega

theorem zpow_log2_lt (hnum : num ≠ 0) (hden : den ≠ 0) :
    (2 : ℚ) ^ ((num.log2 : ℤ) - den.log2 - 1) < num / den := by
  have hn : (2 : ℚ) ^ num.log2 ≤ num := by exact_mod_cast Nat.log2_self_le hnum
  have hd : (den : ℚ) < 2 ^ (den.log2 + 1) := by exact_mod_cast Nat.lt_log2_self
  have hpos : (0 : ℚ) < den := by exact_mod_cast Nat.pos_of_ne_zero hden
  have hsplit : (2 : ℚ) ^ ((num.log2 : ℤ) - den.log2 - 1) = 2 ^ num.log2 / 2 ^ (den.log2 + 1) := by
    rw [sub_sub, zpow_sub₀ two_ne_zero, zpow_natCast]
    norm_cast
  rw [hsplit]
  calc
    (2 : ℚ) ^ num.log2 / 2 ^ (den.log2 + 1) < 2 ^ num.log2 / den :=
      div_lt_div_of_pos_left (by positivity) hpos hd
    _ ≤ num / den := by gcongr

def leadingPlace (num den : Nat) : Int :=
  let top : Int := (num.log2 : Int) - den.log2
  if (scaled 2 num den top).1 < (scaled 2 num den top).2 then top - 1 else top

def lastPlace (num den : Nat) : Int :=
  if leadingPlace num den - 52 < leastExponent then leastExponent else leadingPlace num den - 52

theorem zpow_leadingPlace_le (hnum : num ≠ 0) (hden : den ≠ 0) :
    (2 : ℚ) ^ leadingPlace num den ≤ num / den := by
  rw [leadingPlace]
  split
  · exact (zpow_log2_lt hnum hden).le
  · next hle =>
    have hpos := scaled_pos two_ne_zero hden num ((num.log2 : ℤ) - den.log2)
    have hone : (1 : ℚ) ≤ num / den / (2 : ℕ) ^ ((num.log2 : ℤ) - den.log2) := by
      rw [← scaled_value two_ne_zero, one_le_div (by exact_mod_cast hpos)]
      exact_mod_cast not_lt.1 hle
    rwa [Nat.cast_ofNat, one_le_div (by positivity)] at hone

theorem isZero_carried (negative : Bool) (mantissa : Nat) (exponent : Int) :
    (match if mantissa = 2 * leastNormal then (leastNormal, exponent + 1)
        else (mantissa, exponent) with
      | (m, e) => if greatestExponent < e then infinite negative
        else finite negative m e).isZero = true ↔
      mantissa = 0 ∧ exponent ≤ greatestExponent := by
  have hnormal : 0 < leastNormal := by decide
  by_cases hcarry : mantissa = 2 * leastNormal
  · have hmantissa : mantissa ≠ 0 := by omega
    simp only [hcarry, if_true]
    split <;> simp [isZero, hnormal.ne']
  · simp only [hcarry, if_false]
    split
    · next hbig => simp [isZero, hbig]
    · next hbig => simpa [isZero] using fun _ => not_lt.1 hbig

theorem isZero_nearest (negative : Bool) (num den : Nat) :
    (nearest negative num den).isZero = true ↔
      roundQuotient (scaled 2 num den (lastPlace num den)).1
        (scaled 2 num den (lastPlace num den)).2 = 0 ∧ lastPlace num den ≤ greatestExponent :=
  isZero_carried negative _ _

theorem roundQuotient_scaled_eq_zero_iff (hden : den ≠ 0) (num : Nat) (e : Int) :
    roundQuotient (scaled 2 num den e).1 (scaled 2 num den e).2 = 0 ↔
      (num : ℚ) / den ≤ 2 ^ (e - 1) := by
  have hpos : (0 : ℚ) < (scaled 2 num den e).2 := by
    exact_mod_cast scaled_pos two_ne_zero hden num e
  have hvalue := scaled_value two_ne_zero num den e
  rw [Nat.cast_ofNat, div_eq_iff hpos.ne'] at hvalue
  rw [roundQuotient_eq_zero_iff (scaled_pos two_ne_zero hden num e), ← Nat.cast_le (α := ℚ),
    Nat.cast_mul, hvalue, zpow_sub_one₀ two_ne_zero]
  have hpow : (0 : ℚ) < 2 ^ e := by positivity
  generalize ((scaled 2 num den e).2 : ℚ) = unit at hpos
  generalize (num : ℚ) / den = quotient
  calc
    ((2 : ℕ) : ℚ) * (quotient / 2 ^ e * unit) ≤ unit
      ↔ (2 * quotient / 2 ^ e) * unit ≤ 1 * unit := by
        rw [Nat.cast_ofNat, one_mul, ← mul_assoc, mul_div_assoc]
    _ ↔ 2 * quotient / 2 ^ e ≤ 1 := mul_le_mul_iff_of_pos_right hpos
    _ ↔ 2 * quotient ≤ 2 ^ e := div_le_one₀ hpow
    _ ↔ quotient ≤ 2 ^ e * 2⁻¹ := by
      rw [← div_eq_mul_inv, le_div_iff₀' two_pos]

theorem isZero_nearest_iff (negative : Bool) (hnum : num ≠ 0) (hden : den ≠ 0) :
    (nearest negative num den).isZero = true ↔ (num : ℚ) / den ≤ 2 ^ (-1075 : ℤ) := by
  rw [isZero_nearest, roundQuotient_scaled_eq_zero_iff hden, lastPlace]
  split
  · simp only [leastExponent, greatestExponent]
    norm_num
  · next hplace =>
    -- The quotient has a digit at a place that is kept, so it is neither rounded to zero nor small.
    have hbig : ∀ e < leadingPlace num den, ¬ (num : ℚ) / den ≤ 2 ^ e := by
      intro e he
      exact not_le.2 ((zpow_lt_zpow_right₀ one_lt_two he).trans_le
        (zpow_leadingPlace_le hnum hden))
    rw [leastExponent] at hplace
    have hsmall := hbig (-1075) (by omega)
    have hlast := hbig (leadingPlace num den - 52 - 1) (by omega)
    simp only [hsmall, hlast, false_and]

theorem lt_pow_digitCount (n : Nat) : n < 10 ^ digitCount n :=
  (Nat.length_toDigits_le_iff (by decide) Nat.length_toDigits_pos).1 le_rfl

theorem pow_digitCount_le {n : Nat} (hn : n ≠ 0) : 10 ^ (digitCount n - 1) ≤ n := by
  rcases Nat.eq_zero_or_pos (digitCount n - 1) with h | h
  · rw [h]
    exact Nat.pos_of_ne_zero hn
  · by_contra hlt
    have hle : digitCount n ≤ digitCount n - 1 :=
      (Nat.length_toDigits_le_iff (by decide) h).2 (not_le.1 hlt)
    omega

theorem zpow_digitCount {digits : Nat} (hdigits : digits ≠ 0) (exponent : Int) :
    (10 : ℚ) ^ (digitCount digits + exponent - 1) ≤ digits * 10 ^ exponent ∧
      (digits : ℚ) * 10 ^ exponent < 10 ^ (digitCount digits + exponent) := by
  have hten : (10 : ℚ) ≠ 0 := by norm_num
  have hcount : 0 < digitCount digits := Nat.length_toDigits_pos
  have hlow : (10 : ℚ) ^ (digitCount digits - 1) ≤ digits := by
    exact_mod_cast pow_digitCount_le hdigits
  have hhigh : (digits : ℚ) < 10 ^ digitCount digits := by
    exact_mod_cast lt_pow_digitCount digits
  have hplace : (digitCount digits : ℤ) + exponent - 1 =
      ((digitCount digits - 1 : Nat) : ℤ) + exponent := by
    omega
  rw [hplace, zpow_add₀ hten, zpow_add₀ hten, zpow_natCast, zpow_natCast]
  have hpow : (0 : ℚ) < 10 ^ exponent := by positivity
  exact ⟨mul_le_mul_of_nonneg_right hlow hpow.le, mul_lt_mul_of_pos_right hhigh hpow⟩

theorem zpow_ten_le : (10 : ℚ) ^ (-400 : ℤ) ≤ 2 ^ (-1075 : ℤ) := by
  have hpow : ((2 : ℚ) ^ (3 : ℤ)) ^ (400 : ℤ) ≤ 10 ^ (400 : ℤ) :=
    zpow_le_zpow_left₀ (by norm_num) (by norm_num) (by norm_num)
  calc
    (10 : ℚ) ^ (-400 : ℤ) = (10 ^ (400 : ℤ))⁻¹ := zpow_neg _ _
    _ ≤ ((2 ^ (3 : ℤ)) ^ (400 : ℤ))⁻¹ := inv_anti₀ (by positivity) hpow
    _ = 2 ^ (-1200 : ℤ) := by
      rw [← zpow_mul, ← zpow_neg]
      norm_num
    _ ≤ 2 ^ (-1075 : ℤ) := zpow_le_zpow_right₀ one_le_two (by norm_num)

theorem isZero_ofDecimal_iff (negative : Bool) (digits : Nat) (exponent : Int) :
    (ofDecimal negative digits exponent).isZero = true ↔
      (digits : ℚ) * 10 ^ exponent ≤ 2 ^ (-1075 : ℤ) := by
  rw [ofDecimal]
  split
  · next hdigits => simp [hdigits, zero, isZero]
  · next hdigits =>
    obtain ⟨hlow, hhigh⟩ := zpow_digitCount hdigits exponent
    simp only
    split
    · next hsize =>
      have hlarge : (2 : ℚ) ^ (-1075 : ℤ) < digits * 10 ^ exponent := by
        calc
          (2 : ℚ) ^ (-1075 : ℤ) < 1 := zpow_lt_one_of_neg₀ one_lt_two (by norm_num)
          _ = 10 ^ (0 : ℤ) := (zpow_zero _).symm
          _ ≤ 10 ^ (digitCount digits + exponent - 1) :=
            zpow_le_zpow_right₀ (by norm_num) (by omega)
          _ ≤ digits * 10 ^ exponent := hlow
      exact iff_of_false (by simp [isZero]) hlarge.not_ge
    · split
      · next hsize =>
        have hsmall : (digits : ℚ) * 10 ^ exponent ≤ 2 ^ (-1075 : ℤ) := by
          calc
            (digits : ℚ) * 10 ^ exponent ≤ 10 ^ (digitCount digits + exponent) := hhigh.le
            _ ≤ 10 ^ (-400 : ℤ) := zpow_le_zpow_right₀ (by norm_num) (by omega)
            _ ≤ 2 ^ (-1075 : ℤ) := zpow_ten_le
        exact iff_of_true (by simp [zero, isZero]) hsmall
      · have hvalue := @scaled_value 10 (by decide) digits 1 (-exponent)
        have hden := (@scaled_pos 1 10 (by decide) one_ne_zero digits (-exponent)).ne'
        have hnum : (scaled 10 digits 1 (-exponent)).1 ≠ 0 := by
          intro hzero
          rw [hzero] at hvalue
          simp [hdigits, zpow_ne_zero] at hvalue
        rw [isZero_nearest_iff negative hnum hden, hvalue]
        simp

end WasmBindings.Binary64
