import LoxLang.Proofs.Number.Doubles
import LoxLang.Proofs.Number.Order

/-!
# The nearest double

A decimal is read as the double that is nearest to it among all that are not negative; of two
that are as near, as the one with even bits.  The double behind the finite ones, infinity,
counts as the power of two that would be next.
-/

namespace LoxLang

variable {a b : Nat}

/-! ## Distances -/

section

variable {t x y z : ℚ}

theorem abs_sub_lt_of_lt_of_le (h : x < y) (h' : y ≤ t) : |y - t| < |x - t| := by
  rw [abs_of_nonpos (by linarith), abs_of_nonpos (by linarith)]
  linarith

theorem abs_sub_lt_of_between (h : x < y) (h' : y < z) (hsame : |x - t| = |z - t|) :
    |y - t| < |x - t| := by
  obtain hle | hlt := le_or_gt y t
  · exact abs_sub_lt_of_lt_of_le h hle
  · rw [hsame, abs_of_pos (by linarith), abs_of_pos (by linarith)]
    linarith

end

/-! ## Quotients -/

theorem abs_sub_quotient (k a : Nat) (hb : 0 < b) :
    |(k : ℚ) - a / b| = (((k * b : ℕ) : ℤ) - a).natAbs / b := by
  have hpos : (0 : ℚ) < b := by exact_mod_cast hb
  have hscaled : (k : ℚ) - a / b = ((((k * b : ℕ) : ℤ) - a : ℤ) : ℚ) / b := by
    push_cast
    field_simp
  rw [hscaled, abs_div, abs_of_pos hpos, Nat.cast_natAbs, Int.cast_abs]

/-- A rounded quotient is off by a half at most, and only by so much if it is even. -/
theorem roundQuotient_off (a : Nat) (hb : 0 < b) :
    |(roundQuotient a b : ℚ) - a / b| ≤ 1 / 2 ∧
      (|(roundQuotient a b : ℚ) - a / b| = 1 / 2 → roundQuotient a b % 2 = 0) := by
  have hpos : (0 : ℚ) < b := by exact_mod_cast hb
  have hwhole : 2 * (((roundQuotient a b * b : ℕ) : ℤ) - a).natAbs ≤ b ∧
      (2 * (((roundQuotient a b * b : ℕ) : ℤ) - a).natAbs = b → roundQuotient a b % 2 = 0) := by
    have hparts := Nat.div_add_mod a b
    have hremainder := Nat.mod_lt a hb
    have hnext : (a / b + 1) * b = a / b * b + b := Nat.succ_mul _ _
    rw [Nat.mul_comm] at hparts
    unfold roundQuotient
    dsimp only
    split
    · omega
    · split
      · rw [hnext]
        omega
      · obtain heven | hodd := Nat.mod_two_eq_zero_or_one (a / b)
        · rw [heven, Nat.add_zero]
          omega
        · rw [hodd, hnext]
          omega
  rw [abs_sub_quotient _ _ hb]
  constructor
  · rw [div_le_div_iff₀ hpos two_pos, one_mul, mul_comm]
    exact_mod_cast hwhole.1
  · intro h
    rw [div_eq_div_iff hpos.ne' two_ne_zero, one_mul, mul_comm] at h
    exact hwhole.2 (by exact_mod_cast h)

theorem roundQuotient_nearest (a : Nat) (hb : 0 < b) (j : Nat) :
    |(roundQuotient a b : ℚ) - a / b| ≤ |(j : ℚ) - a / b| ∧
      (|(roundQuotient a b : ℚ) - a / b| = |(j : ℚ) - a / b| → j ≠ roundQuotient a b →
        roundQuotient a b % 2 = 0) := by
  obtain ⟨hoff, heven⟩ := roundQuotient_off a hb
  by_cases hsame : j = roundQuotient a b
  · rw [hsame]
    exact ⟨le_rfl, fun _ h => absurd rfl h⟩
  · have hapart : (1 : ℚ) ≤ |(j : ℚ) - roundQuotient a b| := by
      have hne := abs_pos.mpr (sub_ne_zero.mpr (Int.natCast_inj.not.mpr hsame))
      exact_mod_cast hne
    have htriangle := abs_sub_le (j : ℚ) (a / b) (roundQuotient a b)
    rw [abs_sub_comm (a / b : ℚ)] at htriangle
    exact ⟨by linarith, fun heq _ => heven (by linarith)⟩

theorem multiple_nearest (a : Nat) (hb : 0 < b) (shift j : Nat) :
    let k := roundQuotient a (b * 2 ^ shift)
    |((k * 2 ^ shift : ℕ) : ℚ) - a / b| ≤ |((j * 2 ^ shift : ℕ) : ℚ) - a / b| ∧
      (|((k * 2 ^ shift : ℕ) : ℚ) - a / b| = |((j * 2 ^ shift : ℕ) : ℚ) - a / b| → j ≠ k →
        k % 2 = 0) := by
  intro k
  have hpos : (0 : ℚ) < 2 ^ shift := by positivity
  have hscaled (n : ℕ) : |((n * 2 ^ shift : ℕ) : ℚ) - a / b| =
      |(n : ℚ) - a / (b * 2 ^ shift : ℕ)| * 2 ^ shift := by
    have hden : (b : ℚ) ≠ 0 := by exact_mod_cast hb.ne'
    have hfactor : ((n * 2 ^ shift : ℕ) : ℚ) - a / b =
        ((n : ℚ) - a / (b * 2 ^ shift : ℕ)) * 2 ^ shift := by
      push_cast
      field_simp
    rw [hfactor, abs_mul, abs_of_pos hpos]
  obtain ⟨hnearest, heven⟩ := roundQuotient_nearest a (Nat.mul_pos hb (Nat.two_pow_pos shift)) j
  rw [hscaled, hscaled]
  exact ⟨mul_le_mul_of_nonneg_right hnearest hpos.le,
    fun heq => heven (mul_right_cancel₀ hpos.ne' heq)⟩

namespace Magnitude

/-! ## Codes -/

variable {shift mantissa code code' : Nat} {t : ℚ}

theorem units_eq (hleading : 2 ^ 52 ≤ mantissa ∨ shift = 0) (hless : mantissa ≤ 2 ^ 53) :
    units (shift * 2 ^ 52 + mantissa) = mantissa * 2 ^ shift := by
  unfold units
  simp only [Nat.pow_eq]
  split
  · obtain rfl : shift = 0 := by omega
    omega
  · obtain hlt | rfl := hless.lt_or_eq
    · have hexponent : (shift * 2 ^ 52 + mantissa) / 2 ^ 52 - 1 = shift := by omega
      have hmantissa : 2 ^ 52 + (shift * 2 ^ 52 + mantissa) % 2 ^ 52 = mantissa := by omega
      rw [hexponent, hmantissa]
    · have hexponent : (shift * 2 ^ 52 + 2 ^ 53) / 2 ^ 52 - 1 = shift + 1 := by omega
      have hmantissa : (shift * 2 ^ 52 + 2 ^ 53) % 2 ^ 52 = 0 := by omega
      rw [hexponent, hmantissa]
      ring

theorem infinity_eq : ∃ last, last = 2045 ∧ infinity = last * 2 ^ 52 + 2 ^ 53 :=
  ⟨2045, rfl, rfl⟩

theorem exists_parts (code : Nat) : ∃ shift mantissa,
    code = shift * 2 ^ 52 + mantissa ∧ (2 ^ 52 ≤ mantissa ∨ shift = 0) ∧ mantissa < 2 ^ 53 := by
  by_cases hsmall : code < 2 ^ 52
  · exact ⟨0, code, by omega, .inr rfl, by omega⟩
  · exact ⟨code / 2 ^ 52 - 1, 2 ^ 52 + code % 2 ^ 52, by omega, .inl (by omega), by omega⟩

theorem units_strictMono : StrictMono units := by
  apply strictMono_nat_of_lt_succ
  intro code
  obtain ⟨shift, mantissa, rfl, hleading, hless⟩ := exists_parts code
  rw [Nat.add_assoc, units_eq hleading hless.le, units_eq (by omega) (by omega)]
  exact Nat.mul_lt_mul_of_pos_right (Nat.lt_succ_self _) (Nat.two_pow_pos shift)

/--
The code is nearest to a number of units among all codes; if another one is as near, it is
even.
-/
structure IsNearestCode (code : Nat) (t : ℚ) : Prop where
  number : code ≤ infinity
  nearest : ∀ other ≤ infinity, |(units code : ℚ) - t| ≤ |(units other : ℚ) - t|
  even : ∀ other ≤ infinity, |(units code : ℚ) - t| = |(units other : ℚ) - t| → other ≠ code →
    code % 2 = 0

/-- Where doubles are `2 ^ shift` units apart, the multiple that is rounded to is nearest. -/
theorem rounded_nearest (hb : 0 < b) (hmore : shift = 0 ∨ 2 ^ (shift + 52) ≤ a / b)
    (hless : a / b < 2 ^ (shift + 53)) (other : Nat) :
    let code := shift * 2 ^ 52 + roundQuotient a (b * 2 ^ shift)
    |(units code : ℚ) - a / b| ≤ |(units other : ℚ) - a / b| ∧
      (|(units code : ℚ) - a / b| = |(units other : ℚ) - a / b| → other ≠ code →
        code % 2 = 0) := by
  intro code
  have hupper := code_le hb hless
  have hleading : 2 ^ 52 ≤ roundQuotient a (b * 2 ^ shift) ∨ shift = 0 := by
    obtain hzero | hmore := hmore
    · exact .inr hzero
    · have := le_code hb hmore
      omega
  have hunits : units code = roundQuotient a (b * 2 ^ shift) * 2 ^ shift :=
    units_eq hleading (by omega)
  obtain ⟨shift', mantissa, rfl, hleading', hless'⟩ := exists_parts other
  rw [hunits, units_eq hleading' hless'.le]
  by_cases hcoarse : shift ≤ shift'
  · -- The other one is a multiple of the same distance.
    obtain ⟨extra, rfl⟩ := Nat.exists_eq_add_of_le hcoarse
    have hmultiple : mantissa * 2 ^ (shift + extra) = mantissa * 2 ^ extra * 2 ^ shift := by ring
    obtain ⟨hnearest, heven⟩ := multiple_nearest a hb shift (mantissa * 2 ^ extra)
    rw [hmultiple]
    refine ⟨hnearest, fun heq hother => ?_⟩
    have hdiffers : mantissa * 2 ^ extra ≠ roundQuotient a (b * 2 ^ shift) := by
      intro hsame
      apply hother
      apply units_strictMono.injective
      rw [hunits, units_eq hleading' hless'.le, hmultiple, hsame]
    have := heven heq hdiffers
    omega
  · -- The other one is below all multiples of the distance that are doubles there.
    obtain hzero | hmore := hmore
    · omega
    · have hbelow : mantissa * 2 ^ shift' < 2 ^ 52 * 2 ^ shift := by
        calc mantissa * 2 ^ shift' < 2 ^ 53 * 2 ^ shift' :=
              Nat.mul_lt_mul_of_pos_right hless' (Nat.two_pow_pos shift')
          _ = 2 ^ 52 * 2 ^ (shift' + 1) := by ring
          _ ≤ 2 ^ 52 * 2 ^ shift :=
              Nat.mul_le_mul_left _ (Nat.pow_le_pow_right (by omega) (by omega))
      have habove : ((2 ^ 52 * 2 ^ shift : ℕ) : ℚ) ≤ a / b := by
        rw [le_div_iff₀ (by exact_mod_cast hb)]
        have hproduct := (Nat.le_div_iff_mul_le hb).mp hmore
        rw [Nat.add_comm, Nat.pow_add] at hproduct
        exact_mod_cast hproduct
      have hless : ((mantissa * 2 ^ shift' : ℕ) : ℚ) < (2 ^ 52 * 2 ^ shift : ℕ) := by
        exact_mod_cast hbelow
      obtain ⟨hnearest, -⟩ := multiple_nearest a hb shift (2 ^ 52)
      have hstrict := hnearest.trans_lt (abs_sub_lt_of_lt_of_le hless habove)
      exact ⟨hstrict.le, fun heq => absurd heq hstrict.ne⟩

theorem isNearestCode_nearest (a : Nat) (hb : 0 < b) :
    IsNearestCode (nearest a b) ((a * one : ℕ) / b) := by
  let shift := (a * one / b).log2 - 52
  let code := shift * 2 ^ 52 + roundQuotient (a * one) (b * 2 ^ shift)
  have hnearest : nearest a b = min code infinity := rfl
  have hless : a * one / b < 2 ^ (shift + 53) :=
    Nat.lt_log2_self.trans_le (Nat.pow_le_pow_right (by omega) (by omega))
  have hmore : shift = 0 ∨ 2 ^ (shift + 52) ≤ a * one / b := by
    by_cases hzero : shift = 0
    · exact .inl hzero
    · have hne : a * one / b ≠ 0 := by
        intro hnone
        simp [shift, hnone] at hzero
      exact .inr ((Nat.le_log2 hne).mp (by omega))
  have hcode (other : Nat) := rounded_nearest hb hmore hless other
  obtain hle | hlt := le_or_gt code infinity
  · rw [hnearest, min_eq_left hle]
    exact ⟨hle, fun other _ => (hcode other).1, fun other _ => (hcode other).2⟩
  · -- The number is beyond the power of two that infinity counts as.
    obtain ⟨last, hlast, hinfinity⟩ := infinity_eq
    have hupper := code_le hb hless
    have hshift : last + 1 ≤ shift := by omega
    have hbeyond : (units infinity : ℚ) ≤ (a * one : ℕ) / b := by
      rw [hinfinity, units_eq (by omega) (by omega), le_div_iff₀ (by exact_mod_cast hb)]
      have hpower : 2 ^ 53 * 2 ^ last ≤ a * one / b :=
        calc 2 ^ 53 * 2 ^ last = 2 ^ (53 + last) := (Nat.pow_add 2 53 last).symm
          _ ≤ 2 ^ (shift + 52) := Nat.pow_le_pow_right (by omega) (by omega)
          _ ≤ a * one / b := hmore.resolve_left (by omega)
      exact_mod_cast (Nat.le_div_iff_mul_le hb).mp hpower
    have hfarther (other : Nat) (hother : other < infinity) :
        |(units infinity : ℚ) - (a * one : ℕ) / b| < |(units other : ℚ) - (a * one : ℕ) / b| :=
      abs_sub_lt_of_lt_of_le (by exact_mod_cast units_strictMono hother) hbeyond
    rw [hnearest, min_eq_right hlt.le]
    refine ⟨le_rfl, fun other hother => ?_, fun other hother heq hne => ?_⟩
    · obtain hother | rfl := hother.lt_or_eq
      · exact (hfarther other hother).le
      · exact le_rfl
    · exact absurd heq (hfarther other (lt_of_le_of_ne hother hne)).ne

theorem IsNearestCode.unique (h : IsNearestCode code t) (h' : IsNearestCode code' t) :
    code = code' := by
  by_contra hne
  wlog hlt : code < code' generalizing code code'
  · exact this h' h (Ne.symm hne) (by omega)
  have hsame := le_antisymm (h.nearest code' h'.number) (h'.nearest code h.number)
  have heven := h.even code' h'.number hsame (Ne.symm hne)
  have heven' := h'.even code h.number hsame.symm hne
  -- Between two even codes there is another one, and it would be nearer.
  have hbelow : (units code : ℚ) < units (code + 1) := by
    exact_mod_cast units_strictMono (Nat.lt_succ_self code)
  have habove : (units (code + 1) : ℚ) < units code' := by
    exact_mod_cast units_strictMono (by omega)
  have hnearer := abs_sub_lt_of_between hbelow habove hsame
  have hnumber := h'.number
  exact absurd (h.nearest (code + 1) (by omega)) hnearer.not_ge

end Magnitude

namespace Number

open Magnitude
open Float.Model (UnpackedFloat)
open Float.Model.UnpackedFloat (Sign)

/-! ## Doubles -/

variable {x y : Float} {q : ℚ}

/-- The number that a double is.  Infinity counts as the power of two behind the finite ones. -/
def unpackedWorth : UnpackedFloat → ℚ
  | .finite sign mantissa exponent _ => sign.apply mantissa * 2 ^ exponent
  | .infinity sign => sign.apply 1 * 2 ^ 1024
  | _ => 0

def worth (x : Float) : ℚ :=
  unpackedWorth x.toModel.unpack

def IsUnsigned (x : Float) : Prop :=
  HasSign .positive x.toModel.unpack

/--
Of the unsigned doubles this one is nearest to the number; if another one is as near, this
one has even bits.
-/
structure IsNearest (x : Float) (q : ℚ) : Prop where
  unsigned : IsUnsigned x
  nearest : ∀ y, IsUnsigned y → |worth x - q| ≤ |worth y - q|
  even : ∀ y, IsUnsigned y → |worth x - q| = |worth y - q| → y ≠ x → x.toBits.toNat % 2 = 0

theorem unpackedWorth_mul_one {code : Nat} {u : UnpackedFloat} (h : Unpacks code u) :
    unpackedWorth u * one = units code := by
  unfold one
  -- The exponent stays symbolic, as its power is too great to be written out.
  generalize hleast : 1074 = least
  rw [Nat.pow_eq, Nat.cast_pow, Nat.cast_ofNat]
  cases h with
  | zero => exact zero_mul _
  | @finite _ mantissa exponent shift _ hless hleading _ hcode hexponent =>
      have hshift : ((2 : ℚ) ^ exponent) * 2 ^ least = 2 ^ shift := by
        rw [← zpow_natCast, ← zpow_natCast, ← zpow_add₀ two_ne_zero, hexponent]
        congr 1
        omega
      rw [hcode, units_eq hleading hless.le, unpackedWorth, mul_assoc, hshift]
      push_cast
      rfl
  | infinite =>
      obtain ⟨last, hlast, hinfinity⟩ := infinity_eq
      rw [hinfinity, units_eq (by omega) le_rfl, unpackedWorth, mul_assoc, ← pow_add, ← pow_add]
      have hexponent : 1024 + least = 53 + last := by omega
      rw [hexponent]
      push_cast
      exact one_mul _

theorem isUnsigned_iff : IsUnsigned x ↔ isNegative x = false ∧ ofFloat x ≤ infinity := by
  constructor
  · intro h
    have hsign : isNegative x = false := by
      have hpositive := HasSign.isNegative_eq h
      cases hnegative : isNegative x
      · rfl
      · rw [hnegative] at hpositive
        cases hpositive
    refine ⟨hsign, ?_⟩
    by_contra hlarge
    rw [IsUnsigned, unpack_of_infinity_lt hsign (by omega)] at h
    cases h
  · rintro ⟨hsign, hnumber⟩
    exact (unpacks_toModel hsign hnumber).hasSign

theorem worth_mul_one (h : IsUnsigned x) : worth x * one = units (ofFloat x) := by
  obtain ⟨hsign, hnumber⟩ := isUnsigned_iff.mp h
  exact unpackedWorth_mul_one (unpacks_toModel hsign hnumber)

theorem abs_worth_sub (h : IsUnsigned x) (q : ℚ) :
    |worth x - q| * one = |(units (ofFloat x) : ℚ) - q * one| := by
  have hpos : (0 : ℚ) ≤ one := Nat.cast_nonneg _
  rw [← worth_mul_one h, ← sub_mul, abs_mul, abs_of_nonneg hpos]

theorem isNearest_iff_code :
    IsNearest x q ↔ isNegative x = false ∧ IsNearestCode (ofFloat x) (q * one) := by
  have hpos : (0 : ℚ) < one := by exact_mod_cast one_pos
  have hparity : ofFloat x % 2 = x.toBits.toNat % 2 := by
    simp only [ofFloat, Nat.pow_eq]
    omega
  constructor
  · rintro ⟨hunsigned, hnearest, heven⟩
    obtain ⟨hsign, hnumber⟩ := isUnsigned_iff.mp hunsigned
    have hother (other : Nat) (hcode : other ≤ infinity) :
        ∃ y, IsUnsigned y ∧ ofFloat y = other := by
      obtain ⟨hsign', hof⟩ := toFloat_code hcode
      exact ⟨toFloat false other, isUnsigned_iff.mpr ⟨hsign', hof.le.trans hcode⟩, hof⟩
    refine ⟨hsign, hnumber, fun other hcode => ?_, fun other hcode heq hne => ?_⟩
    · obtain ⟨y, hy, rfl⟩ := hother other hcode
      rw [← abs_worth_sub hunsigned, ← abs_worth_sub hy]
      exact mul_le_mul_of_nonneg_right (hnearest y hy) hpos.le
    · obtain ⟨y, hy, rfl⟩ := hother other hcode
      rw [← abs_worth_sub hunsigned, ← abs_worth_sub hy] at heq
      rw [hparity]
      exact heven y hy (mul_right_cancel₀ hpos.ne' heq) fun hsame => hne (congrArg ofFloat hsame)
  · rintro ⟨hsign, hnumber, hnearest, heven⟩
    have hunsigned : IsUnsigned x := isUnsigned_iff.mpr ⟨hsign, hnumber⟩
    refine ⟨hunsigned, fun y hy => ?_, fun y hy heq hne => ?_⟩
    · have hcodes := hnearest _ (isUnsigned_iff.mp hy).2
      rw [← abs_worth_sub hunsigned, ← abs_worth_sub hy] at hcodes
      exact le_of_mul_le_mul_right hcodes hpos
    · rw [← hparity]
      refine heven _ (isUnsigned_iff.mp hy).2 ?_ fun hsame => hne ?_
      · rw [← abs_worth_sub hunsigned, ← abs_worth_sub hy, heq]
      · rw [← toFloat_ofFloat hsign, ← toFloat_ofFloat (isUnsigned_iff.mp hy).1, hsame]

/-- A decimal is read as the double that is nearest to it. -/
theorem isNearest_iff {d : Decimal} :
    IsNearest x d.value ↔ x = toFloat false d.magnitude := by
  have hpos : 0 < 10 ^ (-d.exponent).toNat := Nat.pow_pos (by omega)
  have hnearest := isNearestCode_nearest (d.coefficient * 10 ^ d.exponent.toNat) hpos
  have hvalue : d.value * one =
      ((d.coefficient * 10 ^ d.exponent.toNat * one : ℕ) : ℚ) / (10 ^ (-d.exponent).toNat : ℕ) := by
    rw [Decimal.value_eq_div, Nat.cast_mul _ one, div_mul_eq_mul_div]
  rw [← Decimal.magnitude_eq, ← hvalue] at hnearest
  obtain ⟨hsign, hof⟩ := toFloat_code hnearest.number
  rw [isNearest_iff_code]
  constructor
  · rintro ⟨hpositive, hcode⟩
    rw [← hcode.unique hnearest, toFloat_ofFloat hpositive]
  · rintro rfl
    exact ⟨hsign, hof.symm ▸ hnearest⟩

end Number

end LoxLang
