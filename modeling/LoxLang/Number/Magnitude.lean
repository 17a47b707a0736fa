/-!
Magnitudes of doubles, coded by natural numbers.

A double without its sign bit is a number below `2 ^ 63`, its *code*.  Codes are
ordered as the magnitudes are, codes from `infinity` on are no finite number, and
every finite magnitude is a whole number of units of `2 ^ -1074`, the least
positive double.  `nearest` rounds any positive fraction to the code of the
closest double; a tie goes to the even code, since the code's parity is that of
the mantissa.
-/

namespace LoxLang

/-- The quotient rounded to the nearest whole number, a tie to the even neighbour. -/
def roundQuotient (numerator denominator : Nat) : Nat :=
  let quotient := numerator / denominator
  let twice := 2 * (numerator % denominator)
  if twice < denominator then quotient
  else if denominator < twice then quotient + 1
  else quotient + quotient % 2

namespace Magnitude

/-- How many units of the least positive double make one. -/
def one : Nat := Nat.pow 2 1074

def infinity : Nat := 2047 * Nat.pow 2 52

def units (code : Nat) : Nat :=
  if code < Nat.pow 2 52 then code
  else (Nat.pow 2 52 + code % Nat.pow 2 52) * Nat.pow 2 (code / Nat.pow 2 52 - 1)

/--
The code of the double nearest to a fraction.  Doubles whose units fill
`53 + shift` bits lie `2 ^ shift` units apart, and the code of the one with
mantissa `m` is `shift * 2 ^ 52 + m`, also where rounding carries into the next
exponent.
-/
def nearest (numerator denominator : Nat) : Nat :=
  let scaled := numerator * one
  let shift := (scaled / denominator).log2 - 52
  min (shift * Nat.pow 2 52 + roundQuotient scaled (denominator * Nat.pow 2 shift)) infinity

def ofFloat (x : Float) : Nat :=
  x.toBits.toNat % Nat.pow 2 63

def isNegative (x : Float) : Bool :=
  decide (Nat.pow 2 63 ≤ x.toBits.toNat)

def toFloat (negative : Bool) (code : Nat) : Float :=
  Float.ofBits (UInt64.ofNat (if negative then Nat.pow 2 63 + code else code))

end Magnitude

end LoxLang
