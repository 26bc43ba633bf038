import DeskCalculator.Decimal.Shortest

/-!
# Numbers as text

A finite number is written as its shortest decimal, in positional notation: an exponent is never
used, and an integer has no point. A numeral read back digit by digit gives the decimal it spells.
-/

namespace DeskCalculator

namespace Decimal

/-! ## Positional notation -/

/-- The digits of a decimal with a point where it is needed, zeros filling the empty places. -/
def positional (d : Decimal) : List Char :=
  let digits := Nat.toDigits 10 d.digits
  let places := (-d.exponent).toNat
  if places = 0 then
    digits ++ List.replicate d.exponent.toNat '0'
  else
    let padded := List.replicate (places + 1 - digits.length) '0' ++ digits
    let whole := padded.length - places
    padded.take whole ++ '.' :: padded.drop whole

/-- The decimal spelt by digits with at most one point among them. -/
def ofNumeral (cs : List Char) : Decimal :=
  let whole := cs.takeWhile (· != '.')
  let fraction := (cs.dropWhile (· != '.')).drop 1
  ⟨Nat.ofDigitChars 10 (whole ++ fraction) 0, -(fraction.length : Int)⟩

end Decimal

namespace Numeral

/-- The text of a number: its shortest decimal after its sign, or the name of what is not finite. -/
def text (x : Float) : String :=
  if x.isNaN then "NaN"
  else
    let magnitude :=
      if x.isInf then "inf".toList
      else if x == 0.0 then ['0']
      else (Decimal.shortest (Binary64.ordinal x)).positional
    String.ofList (if Binary64.isNegative x then '-' :: magnitude else magnitude)

/-- The text of a result: the zeros lose their sign and the infinities have their symbol. -/
def resultText (x : Float) : String :=
  if x.isNaN then "NaN"
  else if x.isInf then (if Binary64.isNegative x then "-∞" else "∞")
  else if x == 0.0 then "0"
  else text x

end Numeral

end DeskCalculator
