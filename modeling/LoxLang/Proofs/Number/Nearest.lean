import Mathlib.Algebra.Order.Field.Rat
import Mathlib.Tactic.FieldSimp
import Mathlib.Tactic.Positivity
import LoxLang.Number.Decimal

/-!
# Rounding to the nearest double

A fraction is rounded by its value alone, so a decimal is read as a double by its value
alone.  A finite double is its own nearest one, and the shortest decimal of a double is
read as that double.
-/

namespace LoxLang

variable {a b c d k : Nat}

/-! ## Quotients -/

theorem roundQuotient_mul_right (hk : 0 < k) :
    roundQuotient (a * k) (b * k) = roundQuotient a b := by
  have hless : 2 * (a % b * k) < b * k ↔ 2 * (a % b) < b := by
    rw [← Nat.mul_assoc, Nat.mul_lt_mul_right hk]
  have hmore : b * k < 2 * (a % b * k) ↔ b < 2 * (a % b) := by
    rw [← Nat.mul_assoc, Nat.mul_lt_mul_right hk]
  simp only [roundQuotient, Nat.mul_div_mul_right a b hk, Nat.mul_mod_mul_right, hless, hmore]

theorem roundQuotient_mul_self (a : Nat) (hb : 0 < b) : roundQuotient (a * b) b = a := by
  simp [roundQuotient, Nat.mul_div_cancel a hb, hb]

namespace Magnitude

theorem pow_pos (n : Nat) : 0 < Nat.pow 2 n :=
  Nat.two_pow_pos n

theorem one_pos : 0 < one := by
  unfold one
  apply pow_pos

/-! ## Fractions of the same value -/

theorem nearest_mul_right (hk : 0 < k) : nearest (a * k) (b * k) = nearest a b := by
  have hspaced (shift : Nat) : b * k * Nat.pow 2 shift = b * Nat.pow 2 shift * k :=
    Nat.mul_right_comm b k _
  simp only [nearest, Nat.mul_right_comm a k one, hspaced, Nat.mul_div_mul_right _ _ hk,
    roundQuotient_mul_right hk]

theorem nearest_congr (hb : 0 < b) (hd : 0 < d) (h : a * d = c * b) :
    nearest a b = nearest c d :=
  calc nearest a b = nearest (a * d) (b * d) := (nearest_mul_right hd).symm
    _ = nearest (c * b) (d * b) := by rw [h, Nat.mul_comm b d]
    _ = nearest c d := nearest_mul_right hb

/-! ## Doubles -/

/-- A whole number of units is rounded to a multiple of the distance between the doubles there. -/
theorem nearest_one (a : Nat) : nearest a one =
    min ((a.log2 - 52) * Nat.pow 2 52 + roundQuotient a (Nat.pow 2 (a.log2 - 52))) infinity := by
  have hspaced (shift : Nat) : one * Nat.pow 2 shift = Nat.pow 2 shift * one :=
    Nat.mul_comm _ _
  simp only [nearest, Nat.mul_div_cancel a one_pos, hspaced, roundQuotient_mul_right one_pos]

theorem log2_units {mantissa : Nat} (h : mantissa < Nat.pow 2 52) (shift : Nat) :
    ((Nat.pow 2 52 + mantissa) * Nat.pow 2 shift).log2 = 52 + shift := by
  change ((2 ^ 52 + mantissa) * 2 ^ shift).log2 = 52 + shift
  change mantissa < 2 ^ 52 at h
  have hpos := Nat.two_pow_pos shift
  have hne : (2 ^ 52 + mantissa) * 2 ^ shift ≠ 0 :=
    Nat.mul_ne_zero (by omega) (by omega)
  rw [Nat.log2_eq_iff hne, Nat.pow_add, Nat.add_right_comm, Nat.pow_add]
  constructor
  · exact Nat.mul_le_mul_right _ (by omega)
  · exact Nat.mul_lt_mul_of_pos_right (by omega) hpos

theorem nearest_units {code : Nat} (h : code < infinity) : nearest (units code) one = code := by
  rw [nearest_one, units]
  split
  · next hsmall =>
      have hlog : code.log2 - 52 = 0 := by
        by_cases hzero : code = 0
        · simp [hzero]
        · have := (Nat.log2_lt hzero).mpr hsmall
          omega
      have hround : roundQuotient code (Nat.pow 2 0) = code := by
        simpa using roundQuotient_mul_self code (pow_pos 0)
      rw [hlog, hround]
      omega
  · next hlarge =>
      have hparts := Nat.div_add_mod code (Nat.pow 2 52)
      have hexponent : 0 < code / Nat.pow 2 52 := Nat.div_pos (by omega) (pow_pos 52)
      have hmantissa : code % Nat.pow 2 52 < Nat.pow 2 52 := Nat.mod_lt _ (pow_pos 52)
      generalize code / Nat.pow 2 52 = exponent at *
      generalize code % Nat.pow 2 52 = mantissa at *
      obtain ⟨shift, rfl⟩ := Nat.exists_eq_add_one.mpr hexponent
      rw [Nat.add_sub_cancel, log2_units hmantissa, Nat.add_sub_cancel_left,
        roundQuotient_mul_self _ (pow_pos shift)]
      have hcode : shift * Nat.pow 2 52 + (Nat.pow 2 52 + mantissa) = code := by
        rw [← hparts, Nat.mul_add, Nat.mul_comm]
        omega
      rw [hcode]
      omega

end Magnitude

/-! ## Decimals -/

namespace Decimal

def value (d : Decimal) : ℚ :=
  d.coefficient * 10 ^ d.exponent

theorem value_eq_div (d : Decimal) :
    d.value = (d.coefficient * 10 ^ d.exponent.toNat : Nat) / (10 ^ (-d.exponent).toNat : Nat) := by
  obtain ⟨n, hn | hn⟩ := d.exponent.eq_nat_or_neg
  · simp [value, hn]
  · simp [value, hn, div_eq_mul_inv]

theorem magnitude_eq (d : Decimal) :
    d.magnitude = Magnitude.nearest (d.coefficient * 10 ^ d.exponent.toNat)
      (10 ^ (-d.exponent).toNat) := by
  unfold magnitude
  split
  · next h =>
      have hzero : (-d.exponent).toNat = 0 := by omega
      rw [hzero]
      rfl
  · next h =>
      have hzero : d.exponent.toNat = 0 := by omega
      rw [hzero, Nat.pow_zero, Nat.mul_one]
      rfl

theorem magnitude_of_value {d : Decimal} (hb : 0 < b) (h : d.value = a / b) :
    d.magnitude = Magnitude.nearest a b := by
  have hpos : 0 < 10 ^ (-d.exponent).toNat := Nat.pow_pos (by omega)
  rw [magnitude_eq]
  refine Magnitude.nearest_congr hpos hb ?_
  rw [value_eq_div, div_eq_div_iff (by positivity) (by positivity)] at h
  exact_mod_cast h

theorem magnitude_congr {d d' : Decimal} (h : d.value = d'.value) :
    d.magnitude = d'.magnitude := by
  rw [value_eq_div d'] at h
  rw [magnitude_eq d', magnitude_of_value (Nat.pow_pos (by omega)) h]

theorem magnitude_of_zero {d : Decimal} (h : d.value = 0) : d.magnitude = 0 := by
  rw [magnitude_of_value Nat.one_pos (a := 0) (by simpa using h)]
  simp [Magnitude.nearest, roundQuotient]

theorem value_exact (code : Nat) : (exact code).value = Magnitude.units code / Magnitude.one := by
  have hscaled (n : Nat) : (Decimal.mk (Magnitude.units code * Nat.pow 5 n) (-n)).value =
      Magnitude.units code / Nat.pow 2 n := by
    have hten : (10 : ℚ) ^ n = 5 ^ n * 2 ^ n := by
      rw [← mul_pow]
      norm_num
    simp only [value, zpow_neg, zpow_natCast, hten, Nat.pow_eq]
    push_cast
    field_simp
  have hexponent : (-1074 : ℤ) = -(1074 : ℕ) := rfl
  unfold exact Magnitude.one
  rw [hexponent]
  generalize 1074 = n
  exact hscaled n

theorem magnitude_exact {code : Nat} (h : code < Magnitude.infinity) :
    (exact code).magnitude = code := by
  rw [magnitude_of_value Magnitude.one_pos (value_exact code), Magnitude.nearest_units h]

theorem magnitude_of_onGrid {code : Nat} {exponent : Int} {d : Decimal}
    (h : onGrid? code exponent = some d) : d.magnitude = code := by
  unfold onGrid? at h
  simpa using List.find?_some h

theorem magnitude_shortest {code : Nat} (h : code < Magnitude.infinity) :
    (shortest code).magnitude = code := by
  unfold shortest
  cases hfound : (List.range 17).findSome? fun (digits : Nat) =>
      onGrid? code (decade code - digits) with
  | none => exact magnitude_exact h
  | some d =>
      obtain ⟨digits, -, hgrid⟩ := List.exists_of_findSome?_eq_some hfound
      exact magnitude_of_onGrid hgrid

end Decimal

end LoxLang
