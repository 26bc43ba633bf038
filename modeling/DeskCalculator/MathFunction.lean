import DeskCalculator.Binary64.Elementary

/-!
# The functions of the calculator

Twenty-seven functions of one number, each called by its name in any letter case. Most of them
follow binary64 arithmetic wherever it leads; only the square root refuses arguments. The cotangent
and the other inverses are the inverses of values, and with one argument a maximum or a minimum is
that argument.
-/

namespace DeskCalculator

inductive MathFunction
  | sin | cos | tan | cot | csc | sec
  | exp | ln
  | sqrt | cbrt
  | sinh | cosh | tanh | coth
  | arcsin | arccos | arctan | arccot
  | abs | floor | ceil | fracpart | trunc | max | min | round | sgn
  deriving DecidableEq, Repr

namespace MathFunction

/-- All the functions, in the order of the catalogue. -/
def all : List MathFunction :=
  [sin, cos, tan, cot, csc, sec, exp, ln, sqrt, cbrt, sinh, cosh, tanh, coth, arcsin, arccos,
    arctan, arccot, abs, floor, ceil, fracpart, trunc, max, min, round, sgn]

def name : MathFunction → String
  | sin => "sin"
  | cos => "cos"
  | tan => "tan"
  | cot => "cot"
  | csc => "csc"
  | sec => "sec"
  | exp => "exp"
  | ln => "ln"
  | sqrt => "sqrt"
  | cbrt => "cbrt"
  | sinh => "sinh"
  | cosh => "cosh"
  | tanh => "tanh"
  | coth => "coth"
  | arcsin => "arcsin"
  | arccos => "arccos"
  | arctan => "arctan"
  | arccot => "arccot"
  | abs => "abs"
  | floor => "floor"
  | ceil => "ceil"
  | fracpart => "fracpart"
  | trunc => "trunc"
  | max => "max"
  | min => "min"
  | round => "round"
  | sgn => "sgn"

/-- The function of a name in any case of the letters `a` to `z`. The bars of an absolute value name
it too. -/
def ofName? (name : String) : Option MathFunction :=
  let lower := name.toList.map Char.toLower
  if lower = ['|', '|'] then some abs else all.find? fun f => f.name.toList = lower

theorem mem_all (f : MathFunction) : f ∈ all := by
  cases f <;> decide

/-- A function is found by its name. -/
theorem ofName?_name (f : MathFunction) : ofName? f.name = some f := by
  cases f <;> decide +kernel

/-- The value of a function, if the argument is in its domain. -/
def valueAt? (f : MathFunction) (x : Float) : Option Float :=
  match f with
  | sin => some (Binary64.snappedSin x)
  | cos => some (Binary64.snappedCos x)
  | tan => some (Binary64.tan x)
  | cot => some (1.0 / Binary64.tan x)
  | csc => some (1.0 / Binary64.sin x)
  | sec => some (1.0 / Binary64.cos x)
  | exp => some (Binary64.exp x)
  | ln => some (Binary64.ln x)
  | sqrt => if x < 0.0 then none else some x.sqrt
  | cbrt => some (Binary64.cbrt x)
  | sinh => some (Binary64.sinh x)
  | cosh => some (Binary64.cosh x)
  | tanh => some (Binary64.tanh x)
  | coth => some (1.0 / Binary64.tanh x)
  | arcsin => some (Binary64.arcsin x)
  | arccos => some (Binary64.arccos x)
  | arctan => some (Binary64.arctan x)
  | arccot => some (1.0 / Binary64.arctan x)
  | abs => some x.abs
  | floor => some (Binary64.floor x)
  | ceil => some (Binary64.ceil x)
  | fracpart => some (x - Binary64.floor x)
  | trunc => some (Binary64.trunc x)
  | max => some x
  | min => some x
  | round => some (Binary64.roundHalfUp x)
  | sgn => some (Binary64.sign x)

end MathFunction

end DeskCalculator
