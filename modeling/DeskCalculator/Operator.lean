import DeskCalculator.Binary64.Elementary
import DeskCalculator.Warning

/-!
# Operators and constants

The binary operators come on two levels: sums, and products, to which the power belongs too. An
operation is carried out in binary64 arithmetic, whatever its operands; for some operands it is
reported by a warning.
-/

namespace DeskCalculator

inductive SumOp
  | plus
  | minus
  deriving DecidableEq, Repr

inductive ProductOp
  | times
  | over
  | modulo
  | power
  deriving DecidableEq, Repr

inductive Operator
  | sum (op : SumOp)
  | product (op : ProductOp)
  deriving DecidableEq, Repr

inductive Constant
  | pi
  | euler
  deriving DecidableEq, Repr

namespace SumOp

def symbol : SumOp → Char
  | .plus => '+'
  | .minus => '-'

def apply : SumOp → Float → Float → Float
  | .plus, a, b => a + b
  | .minus, a, b => a - b

end SumOp

namespace ProductOp

def symbol : ProductOp → Char
  | .times => '*'
  | .over => '/'
  | .modulo => '%'
  | .power => '^'

def apply : ProductOp → Float → Float → Float
  | .times, a, b => a * b
  | .over, a, b => a / b
  | .modulo, a, b => Binary64.remainder a b
  | .power, a, b => Binary64.power a b

/-- What is reported of an operation, if anything is. A zero of either sign counts as zero. -/
def warning? : ProductOp → Float → Float → Option Warning
  | .over, a, b =>
    if b == 0.0 then some (if a == 0.0 then .zeroOverZero else .divisionByZero a) else none
  | .power, a, b =>
    if a == 0.0 && b == 0.0 then some .zeroToTheZero
    else if a == 0.0 && b == -1.0 then some .inverseOfZero
    else none
  | _, _, _ => none

end ProductOp

def Operator.symbol : Operator → Char
  | .sum op => op.symbol
  | .product op => op.symbol

/-- The operators, in the order of their levels. -/
def Operator.all : List Operator :=
  [.sum .plus, .sum .minus, .product .times, .product .over, .product .modulo, .product .power]

namespace Constant

def value : Constant → Float
  | .pi => Binary64.pi
  | .euler => Binary64.euler

/-- The word that names a constant. -/
def word : Constant → String
  | .pi => "pi"
  | .euler => "e"

/-- The sign that stands for a constant in a listing. -/
def sign : Constant → String
  | .pi => "π"
  | .euler => "e"

end Constant

end DeskCalculator
