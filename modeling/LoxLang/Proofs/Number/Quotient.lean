import LoxLang.Number.Quotient
import LoxLang.Proofs.Number.Doubles

/-!
# The quotient by a zero

The division in front of which a zero divisor is caught never fails, and what it answers for a
zero divisor is the quotient of the doubles.
-/

namespace LoxLang

open Float.Model (UnpackedFloat)
open Float.Model.UnpackedFloat

variable {x y : Float} {s : Sign}

namespace Magnitude

theorem infinity_mul_one (negative negative' : Bool) :
    toFloat negative infinity * toFloat negative' (ofFloat 1) =
      .ofModel (.pack (.infinity (sign negative / sign negative'))) := by
  cases negative <;> cases negative' <;> decide +kernel

theorem exists_hasSign {u : UnpackedFloat} (h : u ≠ .notANumber) : ∃ s, HasSign s u := by
  cases u with
  | notANumber => exact absurd rfl h
  | zero s => exact ⟨s, .zero⟩
  | finite s => exact ⟨s, .finite⟩
  | infinity s => exact ⟨s, .infinite⟩

theorem HasSign.div_zero {u : UnpackedFloat} (h : HasSign s u) (hzero : u ≠ .zero s) (s' : Sign) :
    UnpackedFloat.div .binary64 u (.zero s') = .infinity (s / s') := by
  cases h with
  | zero => exact absurd rfl hzero
  | finite => rfl
  | infinite => rfl

end Magnitude

namespace Number

open Magnitude

theorem div_eq (x y : Float) :
    x / y = .ofModel (.pack (UnpackedFloat.div .binary64 x.toModel.unpack y.toModel.unpack)) :=
  rfl

theorem beq_zero_iff : (x == 0) = true ↔ ∃ s, x.toModel.unpack = .zero s := by
  have hbeq : (x == 0) = x.toModel.unpack.beq (.zero .positive) := rfl
  rw [hbeq]
  cases x.toModel.unpack with
  | zero s => simp [UnpackedFloat.beq, UnpackedFloat.compare]
  | notANumber => simp [UnpackedFloat.beq, UnpackedFloat.compare]
  | infinity s => cases s <;> simp [UnpackedFloat.beq, UnpackedFloat.compare]
  | finite s mantissa exponent hpos => cases s <;> simp [UnpackedFloat.beq, UnpackedFloat.compare]

theorem isNaN_iff : x.isNaN = true ↔ x.toModel.unpack = .notANumber := by
  have hnan : x.isNaN = x.toModel.unpack.isNaN := rfl
  rw [hnan]
  cases x.toModel.unpack <;> simp [UnpackedFloat.isNaN]

theorem withSignOf_mul {s' : Sign} (hx : HasSign s x.toModel.unpack)
    (hy : HasSign s' y.toModel.unpack) :
    withSignOf infinity x * withSignOf (ofFloat 1) y = .ofModel (.pack (.infinity (s / s'))) := by
  rw [withSignOf, withSignOf, infinity_mul_one, hx.isNegative_eq, hy.isNegative_eq]

/-- The guarded division has a result for all doubles, and it is their quotient. -/
theorem divide?_eq (x y : Float) : divide? x y = some (x / y) := by
  have hguard : (x == 0 || x.isNaN) = true ↔
      (∃ s, x.toModel.unpack = .zero s) ∨ x.toModel.unpack = .notANumber := by
    rw [Bool.or_eq_true, beq_zero_iff, isNaN_iff]
  unfold divide? quotient?
  by_cases hzero : (y == 0) = true
  · obtain ⟨s', hy⟩ := beq_zero_iff.mp hzero
    have hsign' : HasSign s' y.toModel.unpack := by
      rw [hy]
      exact .zero
    rw [if_pos hzero, div_eq x y, hy]
    by_cases hnone : (x == 0 || x.isNaN) = true
    · rw [if_pos hnone]
      obtain ⟨s, hx⟩ | hx := hguard.mp hnone <;> rw [hx] <;> rfl
    · obtain ⟨hzeros, hnumber⟩ := not_or.mp (hguard.not.mp hnone)
      obtain ⟨s, hsign⟩ := exists_hasSign hnumber
      have hx : x.toModel.unpack ≠ .zero s := fun hx => hzeros ⟨s, hx⟩
      rw [if_neg hnone, withSignOf_mul hsign hsign', hsign.div_zero hx]
  · rw [if_neg hzero, if_neg hzero]

theorem divide_eq (x y : Float) : divide x y = x / y := by
  simp only [divide, divide?_eq, Option.get_some]

end Number

end LoxLang
