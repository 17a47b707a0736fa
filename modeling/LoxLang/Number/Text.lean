import LoxLang.Number.Decimal

/-!
The text of a number.  A number is written with the fewest digits that read
back, with a decimal point where its size is moderate and with an exponent
elsewhere; `NumberFormat` holds these decisions.
-/

namespace LoxLang

structure NumberFormat where
  leastPlain : Int
  /-- The least exponent beyond it that is written with an exponent again. -/
  leastScientific : Int
  keepsPoint : Bool
  exponentDigits : Nat
  deriving DecidableEq, Repr

namespace NumberFormat

/-- Plain from `1e-4` up to below `1e16`; whole numbers have `.0`, exponents two digits or more. -/
def full : NumberFormat := ⟨-4, 16, true, 2⟩

def short : NumberFormat := { full with keepsPoint := false }

end NumberFormat

namespace Decimal

def significant (d : Decimal) : List Char :=
  ((Nat.toDigits 10 d.coefficient).reverse.dropWhile (· = '0')).reverse

/-- The place of the point counted from before the first digit. -/
def point (d : Decimal) : Int :=
  (Nat.toDigits 10 d.coefficient).length + d.exponent

def plain (keepsPoint : Bool) (digits : List Char) (point : Int) : List Char :=
  let whole :=
    if point ≤ 0 then ['0']
    else digits.take point.toNat ++ List.replicate (point.toNat - digits.length) '0'
  let fraction :=
    if point ≤ 0 then List.replicate (-point).toNat '0' ++ digits else digits.drop point.toNat
  if fraction.isEmpty then
    if keepsPoint then whole ++ ['.', '0'] else whole
  else
    whole ++ '.' :: fraction

def scientific (exponentDigits : Nat) (digits : List Char) (exponent : Int) : List Char :=
  let size := Nat.toDigits 10 exponent.natAbs
  let fraction := if digits.length ≤ 1 then [] else '.' :: digits.drop 1
  digits.take 1 ++ fraction ++ 'e' :: (if exponent < 0 then '-' else '+') ::
    List.replicate (exponentDigits - size.length) '0' ++ size

def format (style : NumberFormat) (d : Decimal) : List Char :=
  let exponent := d.point - 1
  if style.leastPlain ≤ exponent && exponent < style.leastScientific then
    plain style.keepsPoint d.significant d.point
  else
    scientific style.exponentDigits d.significant exponent

end Decimal

namespace Number

def format (style : NumberFormat) (x : Float) : List Char :=
  let code := Magnitude.ofFloat x
  let size :=
    if code = Magnitude.infinity then ['i', 'n', 'f']
    else (if code = 0 then ⟨0, 0⟩ else Decimal.shortest code : Decimal).format style
  if Magnitude.infinity < code then ['n', 'a', 'n']
  else if Magnitude.isNegative x then '-' :: size
  else size

def ofDigitText (text : List Char) : Float :=
  Magnitude.toFloat false
    (Decimal.ofDigits (text.takeWhile Char.isDigit)
      ((text.dropWhile Char.isDigit).drop 1)).magnitude

def readExponent? : List Char → Option Int
  | '-' :: digits =>
      if digits.all Char.isDigit then some (-(Nat.ofDigitChars 10 digits 0)) else none
  | '+' :: digits => if digits.all Char.isDigit then some (Nat.ofDigitChars 10 digits 0) else none
  | _ => none

def readDecimal? (text : List Char) : Option Decimal :=
  let whole := text.takeWhile Char.isDigit
  let afterWhole := text.dropWhile Char.isDigit
  let fraction := match afterWhole with
    | '.' :: rest => rest.takeWhile Char.isDigit
    | _ => []
  let afterFraction := match afterWhole with
    | '.' :: rest => rest.dropWhile Char.isDigit
    | rest => rest
  let base := Decimal.ofDigits whole fraction
  match afterFraction with
  | [] => if whole.isEmpty then none else some base
  | 'e' :: exponent =>
      (readExponent? exponent).map fun shift => { base with exponent := base.exponent + shift }
  | _ => none

def readMagnitude? (text : List Char) : Option Nat :=
  if text = ['i', 'n', 'f'] then some Magnitude.infinity
  else (readDecimal? text).map Decimal.magnitude

def read? (text : List Char) : Option Float :=
  match text with
  | ['n', 'a', 'n'] => some (0 / 0)
  | '-' :: size => (readMagnitude? size).map (Magnitude.toFloat true)
  | size => (readMagnitude? size).map (Magnitude.toFloat false)

end Number

end LoxLang
