import DeskCalculator.Decimal.Numeral

/-!
# Warnings

A warning tells of an operation without a proper value. The calculation goes on after it.
-/

namespace DeskCalculator

inductive Warning
  /-- Zero was divided by zero. -/
  | zeroOverZero
  /-- Another number was divided by zero. -/
  | divisionByZero (numerator : Float)
  /-- Zero was raised to the power zero. -/
  | zeroToTheZero
  /-- Zero was raised to the power minus one. -/
  | inverseOfZero
  deriving DecidableEq, Repr

/-- The text of a warning. -/
def Warning.message : Warning → String
  | .zeroOverZero => "l’expression 0/0 est indéterminée"
  | .divisionByZero numerator => "division par zéro : " ++ Numeral.text numerator ++ "/0"
  | .zeroToTheZero => "l’expression 0^0 est indéterminée"
  | .inverseOfZero => "l’inverse de 0 n’existe pas"

end DeskCalculator
