import DeskCalculator.Binary64.Units

/-!
# Integers near a number, and remainders

Rounding to an integer adds a bias to the magnitude and cuts off the fraction; the four roundings of
the machine differ in the bias only, which may depend on the sign. The remainder of two numbers is the
remainder of their counts. All of it is exact: an integer next to a number, and a remainder, are
numbers. The rounding of the calculator, which takes halves up, is computed from the integer below in
the arithmetic of the machine.
-/

namespace DeskCalculator.Binary64

/-! ## Rounding to an integer -/

/-- The integer whose magnitude is that of `x` plus `bias` units, its fraction cut off. The result
has the sign of `x`, also when it is zero; infinities and NaN are returned as they are. -/
def roundBy (bias : Bool → Nat) (x : Float) : Float :=
  if x.isFinite then
    let negative := isNegative x
    ofUnits negative ((units x + bias negative) / unitsOfOne * unitsOfOne)
  else
    x

/-- The nearest integer toward zero. -/
def trunc : Float → Float :=
  roundBy fun _ => 0

/-- The greatest integer that is not above. -/
def floor : Float → Float :=
  roundBy fun negative => if negative then unitsOfOne - 1 else 0

/-- The least integer that is not below. -/
def ceil : Float → Float :=
  roundBy fun negative => if negative then 0 else unitsOfOne - 1

/-- The nearest integer, a half going away from zero. -/
def roundHalfAway : Float → Float :=
  roundBy fun _ => unitsOfOne / 2

/-- The magnitude of `x` with the sign of `y`. -/
def copySign (x y : Float) : Float :=
  ofOrdinal (isNegative y) (ordinal x)

/-- The nearest integer, a half going up. A zero keeps the sign of `x`. -/
def roundHalfUp (x : Float) : Float :=
  let below := floor x
  let rounded := if 0.5 ≤ x - below then below + 1.0 else below
  if rounded == 0.0 then copySign rounded x else rounded

/-! ## Remainder -/

/-- What is left of `x` when a whole multiple of `y` toward zero is taken away; it has the sign of
`x`. There is none when `x` is not finite, or `y` is zero or NaN. -/
def remainder (x y : Float) : Float :=
  if !x.isFinite || y.isNaN || y == 0.0 then nan
  else if y.isFinite then ofUnits (isNegative x) (units x % units y)
  else x

end DeskCalculator.Binary64
