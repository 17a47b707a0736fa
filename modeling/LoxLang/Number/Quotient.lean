import LoxLang.Number.Magnitude

/-!
The division of doubles, on top of a division that has no result for a zero divisor.
-/

namespace LoxLang

namespace Magnitude

def withSignOf (code : Nat) (x : Float) : Float :=
  toFloat (isNegative x) code

end Magnitude

namespace Number

/-- The quotient, unless the divisor is a zero of either sign. -/
def quotient? (x y : Float) : Option Float :=
  if y == 0 then none else some (x / y)

/-- The quotient; by a zero it is infinite, with the sign of both, or no number. -/
def divide? (x y : Float) : Option Float :=
  if y == 0 then
    if x == 0 || x.isNaN then some (0 / 0)
    else
      some <|
        Magnitude.withSignOf Magnitude.infinity x * Magnitude.withSignOf (Magnitude.ofFloat 1) y
  else quotient? x y

theorem isSome_divide? (x y : Float) : (divide? x y).isSome := by
  by_cases hzero : (y == 0) = true
  · rw [divide?, if_pos hzero]
    split <;> rfl
  · rw [divide?, quotient?, if_neg hzero, if_neg hzero]
    rfl

def divide (x y : Float) : Float :=
  (divide? x y).get (isSome_divide? x y)

end Number

end LoxLang
