import DeskCalculator.Binary64.Units

/-!
# Decimals

A decimal is a whole number of steps of a power of ten. It is read as the nearest binary64 number,
whatever the count of its digits.
-/

namespace DeskCalculator

/-- The number `digits * 10 ^ exponent`. -/
structure Decimal where
  digits : Nat
  exponent : Int
  deriving DecidableEq, Repr

namespace Decimal

/-- The count of units of a decimal, as a numerator and a denominator. -/
def ratio (d : Decimal) : Nat × Nat :=
  (d.digits * Nat.pow 10 d.exponent.toNat * Binary64.unitsOfOne, Nat.pow 10 (-d.exponent).toNat)

/-- The rank of the magnitude that a decimal is read as. -/
def ordinal (d : Decimal) : Nat :=
  Binary64.nearestOrdinal d.ratio.1 d.ratio.2

/-- The number that a decimal is read as: the nearest, infinity when there is none large enough. -/
def toFloat (d : Decimal) : Float :=
  Binary64.ofOrdinal false d.ordinal

end Decimal

end DeskCalculator
