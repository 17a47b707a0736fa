import LoxLang.Proofs.Number.Doubles
import LoxLang.Proofs.Number.Order
import LoxLang.Proofs.Number.Texts

/-!
# Numbers of moderate size

A number is written without an exponent exactly from `1e-4` up to below `1e16`.  The digits
of such a text, with a point among them or without one, are read as the number again.
-/

namespace LoxLang

namespace Decimal

/-! ## The place of the point -/

theorem value_lt_pow_point (d : Decimal) : d.value < 10 ^ d.point := by
  have hdigits : d.coefficient < 10 ^ (Nat.toDigits 10 d.coefficient).length :=
    (Nat.length_toDigits_le_iff (by omega) Nat.length_toDigits_pos).mp le_rfl
  rw [value, point, zpow_add₀ (by norm_num), zpow_natCast]
  exact mul_lt_mul_of_pos_right (by exact_mod_cast hdigits) (by positivity)

theorem pow_point_le_value {d : Decimal} (h : d.coefficient ≠ 0) :
    10 ^ (d.point - 1) ≤ d.value := by
  obtain ⟨digits, hlength⟩ := Nat.exists_eq_add_one.mpr
    (Nat.length_toDigits_pos (b := 10) (n := d.coefficient))
  have hdigits : 10 ^ digits ≤ d.coefficient := by
    cases digits with
    | zero => exact Nat.one_le_iff_ne_zero.mpr h
    | succ fewer =>
        by_contra hless
        have := (Nat.length_toDigits_le_iff (by omega) fewer.succ_pos).mpr (Nat.not_le.mp hless)
        omega
  have hpoint : d.point - 1 = digits + d.exponent := by
    rw [point, hlength]
    omega
  rw [hpoint, value, zpow_add₀ (by norm_num), zpow_natCast]
  exact mul_le_mul_of_nonneg_right (by exact_mod_cast hdigits) (by positivity)

def leastPlain : Decimal := ⟨1, NumberFormat.full.leastPlain⟩

def leastScientific : Decimal := ⟨1, NumberFormat.full.leastScientific⟩

theorem point_lt_of_magnitude_lt {d : Decimal} (hne : d.coefficient ≠ 0)
    (h : d.magnitude < leastScientific.magnitude) : d.point - 1 < 16 := by
  have hvalue : (10 : ℚ) ^ (d.point - 1) < 1 * 10 ^ (16 : ℤ) :=
    (pow_point_le_value hne).trans_lt (value_lt_of_magnitude_lt h)
  rw [one_mul] at hvalue
  exact (zpow_lt_zpow_iff_right₀ (by norm_num)).mp hvalue

theorem le_point_of_lt_magnitude {d : Decimal} (h : leastPlain.magnitude < d.magnitude) :
    -4 ≤ d.point - 1 := by
  have hvalue : (1 : ℚ) * 10 ^ (-4 : ℤ) < 10 ^ d.point :=
    (value_lt_of_magnitude_lt h).trans d.value_lt_pow_point
  rw [one_mul] at hvalue
  have := (zpow_lt_zpow_iff_right₀ (by norm_num)).mp hvalue
  omega

theorem shortest_leastPlain : shortest leastPlain.magnitude = leastPlain := by
  decide +kernel

end Decimal

namespace Number

open Decimal Magnitude

variable {x : Float}

/-- A number without a sign that is written without an exponent. -/
structure Moderate (x : Float) : Prop where
  positive : isNegative x = false
  range : x = 0 ∨ (1e-4 ≤ x ∧ x < 1e16)

theorem Moderate.codes (h : Moderate x) : ofFloat x = 0 ∨
    (leastPlain.magnitude ≤ ofFloat x ∧ ofFloat x < leastScientific.magnitude) := by
  have hleast : ofFloat 1e-4 = leastPlain.magnitude := by decide +kernel
  have hbeyond : ofFloat 1e16 = leastScientific.magnitude := by decide +kernel
  have hleast_sign : isNegative 1e-4 = false := by decide +kernel
  have hbeyond_sign : isNegative 1e16 = false := by decide +kernel
  obtain rfl | ⟨hle, hlt⟩ := h.range
  · left
    decide +kernel
  · have hnumber := le_infinity_of_le h.positive hle
    rw [le_iff hleast_sign (by decide +kernel) h.positive hnumber, hleast] at hle
    rw [lt_iff h.positive hnumber hbeyond_sign (by decide +kernel), hbeyond] at hlt
    exact .inr ⟨hle, hlt⟩

theorem Moderate.finite (h : Moderate x) : ofFloat x < infinity := by
  have hbeyond : leastScientific.magnitude < infinity := by decide +kernel
  have hpos : 0 < infinity := by decide
  obtain hzero | ⟨-, hlt⟩ := h.codes <;> omega

theorem Moderate.exponent (h : Moderate x) :
    -4 ≤ (sizeOf (ofFloat x)).point - 1 ∧ (sizeOf (ofFloat x)).point - 1 < 16 := by
  by_cases hzero : ofFloat x = 0
  · rw [hzero]
    decide
  · obtain ⟨hle, hlt⟩ := h.codes.resolve_left hzero
    have hsize : sizeOf (ofFloat x) = shortest (ofFloat x) := if_neg hzero
    have hmagnitude := magnitude_shortest h.finite
    have hcoefficient : (shortest (ofFloat x)).coefficient ≠ 0 := by
      intro hnone
      rw [magnitude_of_zero (by simp [value, hnone])] at hmagnitude
      exact hzero hmagnitude.symm
    rw [hsize]
    refine ⟨?_, point_lt_of_magnitude_lt hcoefficient (by rwa [hmagnitude])⟩
    obtain heq | hless := hle.eq_or_lt
    · rw [← heq, shortest_leastPlain]
      decide
    · exact le_point_of_lt_magnitude (by rwa [hmagnitude])

theorem Moderate.exists_writtenAs (h : Moderate x) : ∃ whole fraction,
    format .short x = whole ++ pointed fraction ∧
      WrittenAs (sizeOf (ofFloat x)) whole fraction := by
  have hplain : (sizeOf (ofFloat x)).format .short =
      plain false (sizeOf (ofFloat x)).significant (sizeOf (ofFloat x)).point := by
    have hexponent : (decide (NumberFormat.short.leastPlain ≤ (sizeOf (ofFloat x)).point - 1) &&
        decide ((sizeOf (ofFloat x)).point - 1 < NumberFormat.short.leastScientific)) = true := by
      rw [Bool.and_eq_true, decide_eq_true_iff, decide_eq_true_iff]
      exact h.exponent
    exact if_pos hexponent
  have htext := format_of_finite .short h.finite
  rw [h.positive, hplain] at htext
  rw [htext]
  exact (sizeOf (ofFloat x)).exists_writtenAs false

theorem format_neg (hsign : isNegative x = false) (hfinite : ofFloat x < infinity) :
    format .short (-x) = '-' :: format .short x := by
  obtain ⟨hnegative, hcode⟩ := Magnitude.neg_eq hsign hfinite
  rw [format_of_finite .short (hcode ▸ hfinite), format_of_finite .short hfinite, hnegative, hcode,
    hsign]
  rfl

theorem ofDigitText_of_writtenAs {d : Decimal} {whole fraction : List Char}
    (h : WrittenAs d whole fraction) :
    ofDigitText (whole ++ pointed fraction) = toFloat false d.magnitude := by
  have hread : Decimal.ofDigits ((whole ++ pointed fraction).takeWhile Char.isDigit)
      (((whole ++ pointed fraction).dropWhile Char.isDigit).drop 1) =
        Decimal.ofDigits whole fraction := by
    have hcut := cut_digits h.digits (pointed fraction) (by cases fraction <;> simp [pointed])
    rw [hcut.1, hcut.2]
    cases fraction <;> rfl
  rw [ofDigitText, hread, magnitude_congr h.same]

end Number

end LoxLang
