/-!
# Unreadable text

Two things cannot be read as a token: a character that starts none, and a number with several
points.
-/

namespace DeskCalculator

inductive LexicalError
  /-- A character that starts no token. -/
  | unknownOperator (c : Char) (position : Nat)
  /-- A run of digits and points with more than one point. -/
  | malformedNumber (text : String) (position : Nat)
  deriving DecidableEq, Repr

/-- The text of an error. -/
def LexicalError.message : LexicalError → String
  | .unknownOperator c position =>
    "opérateur non reconnu '" ++ String.ofList [c] ++ "' (position " ++ toString position ++ ")"
  | .malformedNumber text position =>
    "nombre malformé \"" ++ text ++ "\" (position " ++ toString position ++ ")"

end DeskCalculator
