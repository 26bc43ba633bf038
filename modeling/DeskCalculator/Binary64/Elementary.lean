import DeskCalculator.Binary64.CubeRoot
import DeskCalculator.Binary64.Rounding

/-!
# Elementary functions

The elementary functions of the machine, each leaving NaN as it is, and the two that snap to zero
next to their zeros.
-/

namespace DeskCalculator.Binary64

/-- Applies `f` to a number, and leaves NaN as it is. -/
def keepingNaN (f : Float → Float) (x : Float) : Float :=
  if x.isNaN then x else f x

def sin : Float → Float := keepingNaN Float.sin
def cos : Float → Float := keepingNaN Float.cos
def tan : Float → Float := keepingNaN Float.tan
def exp : Float → Float := keepingNaN Float.exp
def ln : Float → Float := keepingNaN Float.log
def sinh : Float → Float := keepingNaN Float.sinh
def cosh : Float → Float := keepingNaN Float.cosh
def tanh : Float → Float := keepingNaN Float.tanh
def arcsin : Float → Float := keepingNaN Float.asin
def arccos : Float → Float := keepingNaN Float.acos
def arctan : Float → Float := keepingNaN Float.atan

/-- The power `x ^ y`. A zero exponent gives one, also when the base is NaN. -/
def power (x y : Float) : Float :=
  Float.pow x y

/-! ## Snapping -/

/-- How far, in steps, a number may lie from a multiple of the step and still be taken for it. -/
def snapTolerance : Float :=
  1e-12

/-- Whether the quotient of `x` by `step` is within the tolerance of an integer. -/
def nearMultiple (x step : Float) : Bool :=
  let quotient := x / step
  (quotient - roundHalfAway quotient).abs < snapTolerance

/-- The sine, zero next to the multiples of `pi`. -/
def snappedSin (x : Float) : Float :=
  if nearMultiple x pi then 0.0 else sin x

/-- The cosine, zero next to all the multiples of `halfPi`, the even ones included. -/
def snappedCos (x : Float) : Float :=
  if nearMultiple x halfPi then 0.0 else cos x

/-- The sign of `x` as a number: one or minus one; the zeros and NaN are returned as they are. -/
def sign (x : Float) : Float :=
  if x == 0.0 || x.isNaN then x else if x < 0.0 then -1.0 else 1.0

end DeskCalculator.Binary64
