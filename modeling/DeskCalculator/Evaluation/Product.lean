import DeskCalculator.Operator

/-!
# Products

The factors of a term are folded from the left. A zero raised to the power zero makes the whole term
NaN, whatever follows in it; elsewhere NaN is a number like another, whose power zero is one.
-/

namespace DeskCalculator

/-- The value of the factors of a term read so far. -/
inductive Product
  | live (value : Float)
  /-- Zero has been raised to the power zero: the whole term has the value NaN. -/
  | void
  deriving DecidableEq, Repr

namespace Product

def value : Product → Float
  | live value => value
  | void => Binary64.nan

/-- The product after one more factor. What follows in a void term is read but no longer computed.
-/
def fold : Product → ProductOp → Float → Product
  | live value, op, factor =>
    if op.warning? value factor = some .zeroToTheZero then void else live (op.apply value factor)
  | void, _, _ => void

/-- What is reported when one more factor is folded. -/
def warning? : Product → ProductOp → Float → Option Warning
  | live value, op, factor => op.warning? value factor
  | void, _, _ => none

end Product

end DeskCalculator
