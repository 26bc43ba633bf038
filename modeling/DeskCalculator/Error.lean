import DeskCalculator.MathFunction
import DeskCalculator.Token.Basic
import DeskCalculator.Token.LexicalError

/-!
# Errors

An error ends a calculation without a result. It names the token, the name or the value at fault,
and belongs to one of four categories.
-/

namespace DeskCalculator

/-- What would have been accepted in place of a token. -/
inductive Expected
  | kind (k : Kind)
  /-- Anything that starts a factor. -/
  | factor
  deriving DecidableEq, Repr

def Expected.text : Expected → String
  | .kind k => k.text
  | .factor => "un nombre, une constante, une fonction, '(' ou '-'"

inductive Error
  | lexical (e : LexicalError)
  /-- A token, or the end of the input, stands where something else is expected. -/
  | unexpected (found : Kind) (expected : Expected) (position : Nat)
  /-- More levels than the limit would be open at once. -/
  | tooNested (position : Nat) (limit : Nat)
  | unknownFunction (name : String) (position : Nat)
  /-- The argument of a function is outside its domain. -/
  | outsideDomain (f : MathFunction) (argument : Float)
  deriving DecidableEq, Repr

inductive Category
  | lexical
  | grammatical
  | unknownName
  | domain
  deriving DecidableEq, Repr

def Category.text : Category → String
  | .lexical => "erreur lexicale"
  | .grammatical => "erreur de syntaxe"
  | .unknownName => "identifiant inconnu"
  | .domain => "erreur de domaine"

namespace Error

def category : Error → Category
  | lexical _ => .lexical
  | unexpected _ _ _ => .grammatical
  | tooNested _ _ => .grammatical
  | unknownFunction _ _ => .unknownName
  | outsideDomain _ _ => .domain

/-- The text of an error. -/
def message : Error → String
  | lexical e => e.message
  | unexpected found expected position =>
    "jeton inattendu : " ++ found.text ++ ", attendu : " ++ expected.text ++
      " (position " ++ toString position ++ ")"
  | tooNested position limit =>
    "expression trop imbriquée : plus de " ++ toString limit ++
      " niveaux (position " ++ toString position ++ ")"
  | unknownFunction name position =>
    "fonction inconnue : " ++ name ++ " (position " ++ toString position ++ ")"
  | outsideDomain f argument =>
    "argument hors domaine : " ++ f.name ++ "(" ++ Numeral.text argument ++
      ") n’existe pas dans les réels"

end Error

end DeskCalculator
