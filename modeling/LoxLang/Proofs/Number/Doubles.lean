import Mathlib
import LoxLang.Proofs.Number.Nearest

/-!
# Doubles by their codes

A double is its sign and the code of its magnitude.  The opposite of a double has the same
code, and doubles that are not negative are in the order of their codes.  The facts about
packed floats that this rests on come with the library as a whole only.
-/

namespace LoxLang.Magnitude

open Float.Model (UnpackedFloat)
open Float.Model.UnpackedFloat

variable {negative : Bool} {exponent : BitVec 11} {mantissa : BitVec 52} {x y : Float}
  {code code' : Nat}

/-! ## Signs, exponents and mantissas -/

def sign (negative : Bool) : Sign :=
  if negative then .negative else .positive

def bits (negative : Bool) (exponent : BitVec 11) (mantissa : BitVec 52) : BitVec 64 :=
  packComponents .binary64 (sign negative) exponent mantissa

theorem toNat_bits (negative : Bool) (exponent : BitVec 11) (mantissa : BitVec 52) :
    (bits negative exponent mantissa).toNat =
      negative.toNat * 2 ^ 63 + (exponent.toNat * 2 ^ 52 + mantissa.toNat) := by
  have hexponent := exponent.isLt
  have hmantissa := mantissa.isLt
  have hsign : (sign negative).toBitVec.toNat = negative.toNat := by
    cases negative <;> rfl
  rw [bits, packComponents, BitVec.toNat_append, BitVec.toNat_append,
    ← Nat.shiftLeft_add_eq_or_of_lt hmantissa, ← Nat.shiftLeft_add_eq_or_of_lt hexponent, hsign]
  simp only [Nat.shiftLeft_eq]
  omega

theorem exists_sign (s : Sign) : ∃ negative, s = sign negative := by
  cases s
  · exact ⟨true, rfl⟩
  · exact ⟨false, rfl⟩

theorem exists_bits (vector : BitVec 64) : ∃ negative exponent mantissa,
    vector = bits negative exponent mantissa := by
  obtain ⟨negative, hnegative⟩ := exists_sign (Sign.ofBitVec (@unpackSign .binary64 vector))
  refine ⟨negative, @unpackExponent .binary64 vector, @unpackMantissa .binary64 vector, ?_⟩
  rw [bits, ← hnegative]
  exact (@packComponents_unpackSign_unpackExponent_unpackMantissa .binary64 vector).symm

theorem of_bits (h : x.toBits.toBitVec = bits negative exponent mantissa) :
    isNegative x = negative ∧ ofFloat x = exponent.toNat * 2 ^ 52 + mantissa.toNat := by
  have hexponent := exponent.isLt
  have hmantissa := mantissa.isLt
  have htoNat : x.toBits.toNat =
      negative.toNat * 2 ^ 63 + (exponent.toNat * 2 ^ 52 + mantissa.toNat) := by
    rw [← toNat_bits, ← h, UInt64.toNat_toBitVec]
  simp only [isNegative, ofFloat, htoNat, Nat.pow_eq]
  cases negative <;> simp <;> omega

theorem exists_positive_bits (hsign : isNegative x = false) : ∃ exponent mantissa,
    x.toBits.toBitVec = bits false exponent mantissa ∧
      ofFloat x = exponent.toNat * 2 ^ 52 + mantissa.toNat := by
  obtain ⟨negative, exponent, mantissa, hbits⟩ := exists_bits x.toBits.toBitVec
  obtain ⟨hnegative, hcode⟩ := of_bits hbits
  obtain rfl : negative = false := hnegative.symm.trans hsign
  exact ⟨exponent, mantissa, hbits, hcode⟩

theorem unpack_toModel (x : Float) : x.toModel.unpack = unpack .binary64 x.toBits.toBitVec :=
  rfl

/-! ## Numbers -/

theorem isNaNBits_bits :
    @isNaNBits .binary64 (bits negative exponent mantissa) = true ↔
      infinity < exponent.toNat * 2 ^ 52 + mantissa.toNat := by
  have hexponent := exponent.isLt
  have hmantissa := mantissa.isLt
  have hinfinity : infinity = 2047 * 2 ^ 52 := rfl
  have hfull : exponent = -1#11 ↔ exponent.toNat = 2047 := by
    rw [← BitVec.toNat_inj]
    rfl
  have hnone : mantissa = 0#52 ↔ mantissa.toNat = 0 := by
    rw [← BitVec.toNat_inj]
    rfl
  simp only [isNaNBits, bits, unpackExponent_packComponents, unpackMantissa_packComponents,
    decide_eq_true_iff]
  rw [Ne, hnone]
  change exponent = -1#11 ∧ _ ↔ _
  rw [hfull]
  omega

theorem pack_unpack_bits (h : exponent.toNat * 2 ^ 52 + mantissa.toNat ≤ infinity) :
    pack .binary64 (unpack .binary64 (bits negative exponent mantissa)) =
      bits negative exponent mantissa := by
  have hnumber : ¬@isNaNBits .binary64 (bits negative exponent mantissa) = true := by
    rw [isNaNBits_bits]
    omega
  rw [pack_unpack, if_neg hnumber]

theorem toFloat_code (h : code ≤ infinity) :
    isNegative (toFloat false code) = false ∧ ofFloat (toFloat false code) = code := by
  have hinfinity : infinity = 2047 * 2 ^ 52 := rfl
  obtain ⟨negative, exponent, mantissa, hbits⟩ := exists_bits (BitVec.ofNat 64 code)
  have hcode := congrArg BitVec.toNat hbits
  rw [toNat_bits, BitVec.toNat_ofNat, Nat.mod_eq_of_lt (by omega)] at hcode
  obtain rfl : negative = false := by
    cases negative
    · rfl
    · simp at hcode
      omega
  simp only [Bool.toNat_false, Nat.zero_mul, Nat.zero_add] at hcode
  have hfloat : (toFloat false code).toBits.toBitVec = bits false exponent mantissa := by
    have hpacked : (toFloat false code).toBits.toBitVec =
        pack .binary64 (unpack .binary64 (BitVec.ofNat 64 code)) := rfl
    rw [hpacked, hbits, pack_unpack_bits (hcode ▸ h)]
  obtain ⟨hsign, hof⟩ := of_bits hfloat
  exact ⟨hsign, hof.trans hcode.symm⟩

theorem toFloat_ofFloat (h : isNegative x = false) : toFloat false (ofFloat x) = x := by
  have hcode : ofFloat x = x.toBits.toNat := by
    simp only [isNegative, decide_eq_false_iff_not, Nat.not_le] at h
    exact Nat.mod_eq_of_lt h
  rw [toFloat, if_neg Bool.false_ne_true, hcode, UInt64.ofNat_toNat, Float.ofBits_toBits]

/-- The double is a number, finite or not, and has the sign. -/
inductive HasSign (s : Sign) : UnpackedFloat → Prop
  | zero : HasSign s (.zero s)
  | finite {mantissa exponent hpos} : HasSign s (.finite s mantissa exponent hpos)
  | infinite : HasSign s (.infinity s)

theorem HasSign.isNegative_eq {s : Sign} (h : HasSign s x.toModel.unpack) :
    sign (isNegative x) = s := by
  obtain ⟨negative, exponent, mantissa, hbits⟩ := exists_bits x.toBits.toBitVec
  obtain ⟨hnegative, -⟩ := of_bits hbits
  rw [unpack_toModel, hbits] at h
  simp only [unpack, bits, unpackSign_packComponents, Sign.ofBitVec_toBitVec] at h
  rw [hnegative]
  split_ifs at h <;> cases h <;> rfl

/-! ## Negation -/

theorem unpack_bits_true (exponent : BitVec 11) (mantissa : BitVec 52) :
    unpack .binary64 (bits true exponent mantissa) =
      (unpack .binary64 (bits false exponent mantissa)).neg := by
  simp only [unpack, bits, unpackExponent_packComponents, unpackMantissa_packComponents,
    unpackSign_packComponents, Sign.ofBitVec_toBitVec]
  split_ifs <;> rfl

theorem neg_eq (hsign : isNegative x = false) (hfinite : ofFloat x < infinity) :
    isNegative (-x) = true ∧ ofFloat (-x) = ofFloat x := by
  obtain ⟨exponent, mantissa, hbits, hcode⟩ := exists_positive_bits hsign
  have hmodel : (-x).toBits.toBitVec =
      pack .binary64 (unpack .binary64 x.toBits.toBitVec).neg := rfl
  have hneg : (-x).toBits.toBitVec = bits true exponent mantissa := by
    rw [hmodel, hbits, ← unpack_bits_true, pack_unpack_bits (hcode ▸ hfinite.le)]
  rw [hcode]
  exact of_bits hneg

/-! ## The order -/

/-- The doubles that are not negative, by their codes. -/
inductive Unpacks : Nat → UnpackedFloat → Prop
  | zero : Unpacks 0 (.zero .positive)
  | finite {code mantissa : Nat} {exponent : Int} (shift : Nat) (hpos : 0 < mantissa) :
      mantissa < 2 ^ 53 → (2 ^ 52 ≤ mantissa ∨ shift = 0) → shift ≤ 2045 →
      code = shift * 2 ^ 52 + mantissa → exponent = shift - 1074 →
      Unpacks code (.finite .positive mantissa exponent hpos)
  | infinite : Unpacks infinity (.infinity .positive)

theorem Unpacks.hasSign {u : UnpackedFloat} (h : Unpacks code u) : HasSign .positive u := by
  cases h with
  | zero => exact .zero
  | finite => exact .finite
  | infinite => exact .infinite

theorem toNat_leading_one (mantissa : BitVec 52) :
    (1#1 ++ mantissa).toNat = 2 ^ 52 + mantissa.toNat := by
  rw [BitVec.toNat_append, ← Nat.shiftLeft_add_eq_or_of_lt mantissa.isLt]
  rfl

theorem unpacks_bits (h : exponent.toNat * 2 ^ 52 + mantissa.toNat ≤ infinity) :
    Unpacks (exponent.toNat * 2 ^ 52 + mantissa.toNat)
      (unpack .binary64 (bits false exponent mantissa)) := by
  have hexponent := exponent.isLt
  have hmantissa := mantissa.isLt
  have hinfinity : infinity = 2047 * 2 ^ 52 := rfl
  have hbias : ((Float.Model.Format.exponentBias .binary64 : Nat) : Int) = 1023 := rfl
  simp only [unpack, bits, unpackExponent_packComponents, unpackMantissa_packComponents,
    unpackSign_packComponents, Sign.ofBitVec_toBitVec]
  split
  next hall =>
    have hfull : exponent.toNat = 2047 := by rw [hall]; rfl
    obtain rfl : mantissa = 0#52 := BitVec.eq_of_toNat_eq (by rw [BitVec.toNat_ofNat]; omega)
    rw [if_pos rfl, hfull]
    exact .infinite
  next hall =>
    have hfull : exponent.toNat ≠ 2047 := fun hfull => hall (BitVec.eq_of_toNat_eq hfull)
    split
    next hnone =>
      subst hnone
      split
      next hzero =>
        subst hzero
        exact .zero
      next hzero =>
        have hpos : mantissa.toNat ≠ 0 := fun hpos => hzero (BitVec.eq_of_toNat_eq hpos)
        exact .finite 0 _ (by omega) (.inr rfl) (by omega) (by simp) (by rw [hbias]; rfl)
    next hnone =>
      have hpos : exponent.toNat ≠ 0 := fun hpos => hnone (BitVec.eq_of_toNat_eq hpos)
      have hone := toNat_leading_one mantissa
      refine .finite (exponent.toNat - 1) _ ?_ (.inl ?_) ?_ ?_ ?_
      · omega
      · omega
      · omega
      · omega
      · rw [hbias]
        omega

/-- The greater exponent makes the greater code, as the mantissa with it has its leading one. -/
theorem compare_codes {shift shift' mantissa mantissa' : Nat} (hless : mantissa < 2 ^ 53)
    (hleading : 2 ^ 52 ≤ mantissa ∨ shift = 0) (hless' : mantissa' < 2 ^ 53)
    (hleading' : 2 ^ 52 ≤ mantissa' ∨ shift' = 0) :
    (compare shift shift').then (compare mantissa mantissa') =
      compare (shift * 2 ^ 52 + mantissa) (shift' * 2 ^ 52 + mantissa') := by
  obtain hlt | rfl | hgt := Nat.lt_trichotomy shift shift'
  · have hcodes : shift * 2 ^ 52 + mantissa < shift' * 2 ^ 52 + mantissa' := by omega
    rw [compare_lt_iff_lt.mpr hlt, compare_lt_iff_lt.mpr hcodes]
    rfl
  · rw [compare_eq_iff_eq.mpr rfl]
    simp only [Ordering.then, compare, compareOfLessAndEq, Nat.add_lt_add_iff_left,
      Nat.add_left_cancel_iff]
  · have hcodes : shift' * 2 ^ 52 + mantissa' < shift * 2 ^ 52 + mantissa := by omega
    rw [compare_gt_iff_gt.mpr hgt, compare_gt_iff_gt.mpr hcodes]
    rfl

theorem Unpacks.compare_eq {u u' : UnpackedFloat} (h : Unpacks code u) (h' : Unpacks code' u') :
    u.compare u' = some (compare code code') := by
  have hinfinity : infinity = 2047 * 2 ^ 52 := rfl
  cases h with
  | zero =>
      cases h' with
      | zero => rfl
      | finite shift' hpos' =>
          have hlt : 0 < code' := by omega
          rw [compare_lt_iff_lt.mpr hlt]
          rfl
      | infinite => rfl
  | @finite _ mantissa exponent shift _ hmantissa hleading hshift hcode hexponent =>
      cases h' with
      | zero =>
          have hlt : 0 < code := by omega
          rw [compare_gt_iff_gt.mpr hlt]
          rfl
      | @finite _ mantissa' exponent' shift' _ hmantissa' hleading' hshift' hcode' hexponent' =>
          have hexponents : compare exponent exponent' = compare shift shift' := by
            simp [hexponent, hexponent', compare, compareOfLessAndEq]
          change some ((compare exponent exponent').then (compare mantissa mantissa')) = _
          rw [hexponents, compare_codes hmantissa hleading hmantissa' hleading', hcode, hcode']
      | infinite =>
          have hlt : code < infinity := by omega
          rw [compare_lt_iff_lt.mpr hlt]
          rfl
  | infinite =>
      cases h' with
      | zero => rfl
      | finite shift' hpos' =>
          have hlt : code' < infinity := by omega
          rw [compare_gt_iff_gt.mpr hlt]
          rfl
      | infinite =>
          have hsame : compare infinity infinity = .eq := compare_eq_iff_eq.mpr rfl
          rw [hsame]
          rfl

theorem unpacks_toModel (hsign : isNegative x = false) (hnumber : ofFloat x ≤ infinity) :
    Unpacks (ofFloat x) x.toModel.unpack := by
  obtain ⟨exponent, mantissa, hbits, hcode⟩ := exists_positive_bits hsign
  rw [hcode] at hnumber
  rw [unpack_toModel, hbits, hcode]
  exact unpacks_bits hnumber

theorem le_iff_unpack : x ≤ y ↔ UnpackedFloat.le x.toModel.unpack y.toModel.unpack = true :=
  decide_eq_true_iff

theorem lt_iff_unpack : x < y ↔ UnpackedFloat.lt x.toModel.unpack y.toModel.unpack = true :=
  decide_eq_true_iff

theorem unpack_of_infinity_lt (hsign : isNegative x = false) (h : infinity < ofFloat x) :
    x.toModel.unpack = .notANumber := by
  obtain ⟨exponent, mantissa, hbits, hcode⟩ := exists_positive_bits hsign
  have hnumber : @isNaNBits .binary64 (bits false exponent mantissa) = true :=
    isNaNBits_bits.mpr (hcode ▸ h)
  rw [isNaNBits, decide_eq_true_iff] at hnumber
  rw [unpack_toModel, hbits, unpack]
  simp only [if_pos hnumber.1, if_neg hnumber.2]

theorem le_infinity_of_le (hsign : isNegative x = false) (h : y ≤ x) :
    ofFloat x ≤ infinity := by
  by_contra hlarge
  rw [le_iff_unpack, unpack_of_infinity_lt hsign (by omega)] at h
  cases hother : y.toModel.unpack <;> simp [UnpackedFloat.le, UnpackedFloat.compare, hother] at h

theorem le_iff (hsign : isNegative x = false) (hnumber : ofFloat x ≤ infinity)
    (hsign' : isNegative y = false) (hnumber' : ofFloat y ≤ infinity) :
    x ≤ y ↔ ofFloat x ≤ ofFloat y := by
  have hcompare := (unpacks_toModel hsign hnumber).compare_eq (unpacks_toModel hsign' hnumber')
  rw [le_iff_unpack, UnpackedFloat.le, hcompare, Option.any_some, Nat.isLE_compare]

theorem lt_iff (hsign : isNegative x = false) (hnumber : ofFloat x ≤ infinity)
    (hsign' : isNegative y = false) (hnumber' : ofFloat y ≤ infinity) :
    x < y ↔ ofFloat x < ofFloat y := by
  have hcompare := (unpacks_toModel hsign hnumber).compare_eq (unpacks_toModel hsign' hnumber')
  rw [lt_iff_unpack, UnpackedFloat.lt, hcompare, beq_iff_eq, Option.some.injEq,
    compare_lt_iff_lt]

end LoxLang.Magnitude
