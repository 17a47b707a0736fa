import Mathlib.Data.Nat.Log
import Mathlib.Tactic.Ring
import LoxLang.Proofs.Number.Nearest

/-!
# Rounding keeps the order

Of two fractions the greater is never rounded to the lesser double, so a decimal that is
read as a lesser double is the lesser one.
-/

namespace LoxLang

variable {a b c k : Nat}

/-! ## Quotients -/

theorem roundQuotient_le (hb : 0 < b) (h : a ≤ k * b) : roundQuotient a b ≤ k := by
  have hparts := Nat.div_add_mod a b
  have hquotient : a / b ≤ k := Nat.div_le_of_le_mul (Nat.mul_comm k b ▸ h)
  unfold roundQuotient
  dsimp only
  obtain heq | hlt := hquotient.eq_or_lt
  · rw [heq, Nat.mul_comm b k] at hparts
    have hnone : a % b = 0 := by omega
    rw [heq, hnone, if_pos (by omega)]
  · split
    · omega
    · split <;> omega

theorem le_roundQuotient (hb : 0 < b) (h : k * b ≤ a) : k ≤ roundQuotient a b := by
  have hquotient : k ≤ a / b := (Nat.le_div_iff_mul_le hb).mpr h
  unfold roundQuotient
  dsimp only
  split
  · exact hquotient
  · split <;> omega

theorem roundQuotient_mono (hb : 0 < b) (h : a ≤ c) : roundQuotient a b ≤ roundQuotient c b := by
  obtain heq | hlt := (Nat.div_le_div_right (c := b) h).eq_or_lt
  · have hparts := Nat.div_add_mod a b
    have hparts' := Nat.div_add_mod c b
    rw [← heq] at hparts'
    have hremainder : a % b ≤ c % b := by omega
    simp only [roundQuotient, heq]
    grind
  · have hbelow : roundQuotient a b ≤ a / b + 1 :=
      roundQuotient_le hb (Nat.lt_mul_of_div_lt (Nat.lt_succ_self _) hb).le
    have habove : c / b ≤ roundQuotient c b := le_roundQuotient hb (Nat.div_mul_le_self c b)
    omega

namespace Magnitude

/-! ## Doubles -/

section

variable {units shift : Nat}

/-- Where doubles are `2 ^ shift` units apart, codes go up to `(shift + 2) * 2 ^ 52`. -/
theorem code_le (hk : 0 < k) (h : units / k < 2 ^ (shift + 53)) :
    shift * 2 ^ 52 + roundQuotient units (k * 2 ^ shift) ≤ (shift + 2) * 2 ^ 52 := by
  have hround : roundQuotient units (k * 2 ^ shift) ≤ 2 ^ 53 := by
    apply roundQuotient_le (Nat.mul_pos hk (Nat.two_pow_pos shift))
    calc units ≤ 2 ^ (shift + 53) * k := ((Nat.div_lt_iff_lt_mul hk).mp h).le
      _ = 2 ^ 53 * (k * 2 ^ shift) := by ring
  omega

/-- Where they are not as close as any, codes start at `(shift + 1) * 2 ^ 52`. -/
theorem le_code (hk : 0 < k) (h : 2 ^ (shift + 52) ≤ units / k) :
    (shift + 1) * 2 ^ 52 ≤ shift * 2 ^ 52 + roundQuotient units (k * 2 ^ shift) := by
  have hround : 2 ^ 52 ≤ roundQuotient units (k * 2 ^ shift) := by
    apply le_roundQuotient (Nat.mul_pos hk (Nat.two_pow_pos shift))
    calc 2 ^ 52 * (k * 2 ^ shift) = 2 ^ (shift + 52) * k := by ring
      _ ≤ units := (Nat.le_div_iff_mul_le hk).mp h
  omega

end

theorem nearest_mono (hk : 0 < k) (h : a ≤ c) : nearest a k ≤ nearest c k := by
  have hunits : a * one ≤ c * one := Nat.mul_le_mul_right one h
  have hlog : (a * one / k).log2 - 52 ≤ (c * one / k).log2 - 52 := by
    rw [Nat.log2_eq_log_two, Nat.log2_eq_log_two]
    exact Nat.sub_le_sub_right (Nat.log_mono_right (Nat.div_le_div_right hunits)) 52
  simp only [nearest]
  apply min_le_min_right
  obtain hsame | hfiner := hlog.eq_or_lt
  · rw [hsame]
    have hspacing : 0 < k * Nat.pow 2 ((c * one / k).log2 - 52) := Nat.mul_pos hk (pow_pos _)
    exact Nat.add_le_add_left (roundQuotient_mono hspacing hunits) _
  · -- The lesser one is carried into the next exponent at most.
    have hless : a * one / k < 2 ^ ((a * one / k).log2 - 52 + 53) :=
      Nat.lt_log2_self.trans_le (Nat.pow_le_pow_right (by omega) (by omega))
    have hmore : 2 ^ ((c * one / k).log2 - 52 + 52) ≤ c * one / k := by
      have hne : c * one / k ≠ 0 := by
        intro hzero
        simp [hzero] at hfiner
      exact (Nat.le_log2 hne).mp (by omega)
    refine (code_le hk hless).trans (le_trans ?_ (le_code hk hmore))
    exact Nat.mul_le_mul_right _ (by omega)

end Magnitude

/-! ## Decimals -/

namespace Decimal

variable {d d' : Decimal}

theorem magnitude_mono (h : d.value ≤ d'.value) : d.magnitude ≤ d'.magnitude := by
  have hpos : 0 < 10 ^ (-d.exponent).toNat := Nat.pow_pos (by omega)
  have hpos' : 0 < 10 ^ (-d'.exponent).toNat := Nat.pow_pos (by omega)
  rw [value_eq_div, value_eq_div, div_le_div_iff₀ (by positivity) (by positivity)] at h
  rw [magnitude_eq, magnitude_eq, ← Magnitude.nearest_mul_right hpos',
    ← Magnitude.nearest_mul_right (b := 10 ^ (-d'.exponent).toNat) hpos,
    Nat.mul_comm (10 ^ (-d'.exponent).toNat)]
  exact Magnitude.nearest_mono (Nat.mul_pos hpos hpos') (by exact_mod_cast h)

theorem value_lt_of_magnitude_lt (h : d.magnitude < d'.magnitude) : d.value < d'.value :=
  lt_of_not_ge fun hge => (magnitude_mono hge).not_gt h

end Decimal

end LoxLang
