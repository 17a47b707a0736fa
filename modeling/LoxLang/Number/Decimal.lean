import LoxLang.Number.Magnitude

/-!
Decimal fractions `coefficient · 10 ^ exponent`, their nearest doubles, and the
shortest decimal that reads back as a given double.
-/

namespace LoxLang

structure Decimal where
  coefficient : Nat
  exponent : Int
  deriving DecidableEq, Repr

namespace Decimal

def ofDigits (whole fraction : List Char) : Decimal :=
  ⟨Nat.ofDigitChars 10 (whole ++ fraction) 0, -fraction.length⟩

def magnitude (d : Decimal) : Nat :=
  if 0 ≤ d.exponent then Magnitude.nearest (d.coefficient * Nat.pow 10 d.exponent.toNat) 1
  else Magnitude.nearest d.coefficient (Nat.pow 10 (-d.exponent).toNat)

/-- The exponent `e` with `10 ^ e ≤ x < 10 ^ (e + 1)` for the positive magnitude `x`. -/
def decade (code : Nat) : Int :=
  let units := Magnitude.units code
  if Magnitude.one ≤ units then
    (Nat.toDigits 10 (units / Magnitude.one)).length - 1
  else
    -(Nat.toDigits 10 ((Magnitude.one - 1) / units)).length

/--
A multiple of `10 ^ exponent` that reads back as the magnitude: of its two
neighbours on that grid the one that does, of both the nearer.
-/
def onGrid? (code : Nat) (exponent : Int) : Option Decimal :=
  let numerator := Magnitude.units code * Nat.pow 10 (-exponent).toNat
  let denominator := Magnitude.one * Nat.pow 10 exponent.toNat
  let nearer : Decimal := ⟨roundQuotient numerator denominator, exponent⟩
  let below : Decimal := ⟨numerator / denominator, exponent⟩
  let above : Decimal := ⟨numerator / denominator + 1, exponent⟩
  [nearer, below, above].find? fun d => d.magnitude = code

def exact (code : Nat) : Decimal :=
  ⟨Magnitude.units code * Nat.pow 5 1074, -1074⟩

/--
The decimal with the fewest digits that reads back as the magnitude: seventeen
digits are always enough, so the grids of one to seventeen digits are searched,
the coarsest first.
-/
def shortest (code : Nat) : Decimal :=
  ((List.range 17).findSome? fun (digits : Nat) => onGrid? code (decade code - digits)).getD
    (exact code)

end Decimal

end LoxLang
