import DeskCalculator.Binary64.Units

/-!
# Cube roots

The cube root of a number is the number nearest to the exact root. The root of a count of units is
found bit by bit; when it is not whole, half a unit more stands for the digits that follow, which is
all that rounding has to know of them.
-/

namespace DeskCalculator.Binary64

/-- Completes the greatest integer whose cube is at most `n` by its `bits` lowest bits. -/
def cubeRootFrom (n : Nat) : (bits root : Nat) → Nat
  | 0, root => root
  | bits + 1, root =>
    let candidate := root + Nat.pow 2 bits
    cubeRootFrom n bits (if Nat.pow candidate 3 ≤ n then candidate else root)

/-- The greatest integer whose cube is at most `n`. -/
def cubeRoot (n : Nat) : Nat :=
  cubeRootFrom n (n.log2 / 3 + 1) 0

/-- The cube root of `x`, correctly rounded. Infinities and NaN are returned as they are. -/
def cbrt (x : Float) : Float :=
  if x.isFinite then
    let cube := units x * Nat.pow unitsOfOne 2
    let root := cubeRoot cube
    ofRatio (isNegative x) (2 * root + if Nat.pow root 3 = cube then 0 else 1) 2
  else
    x

end DeskCalculator.Binary64
