import DeskCalculator.MathFunction
import DeskCalculator.Operator

/-!
# Keys

The keys of the keypad. Most of them write something at the end of the input line; one erases the
last symbol, and three clear the line, the outputs, or both with the history.
-/

namespace DeskCalculator

/-- What a clearing key clears. -/
inductive Scope
  | line
  | outputs
  | everything
  deriving DecidableEq, Repr

inductive Key
  | digit (d : Fin 10)
  | point
  | operator (op : Operator)
  | constant (c : Constant)
  | call (f : MathFunction)
  | leftParen
  | rightParen
  | delete
  | clear (scope : Scope)
  deriving DecidableEq, Repr

namespace Key

/-- The text on a key. -/
def label : Key → String
  | digit d => String.ofList [d.val.digitChar]
  | point => "."
  | operator op => String.ofList [op.symbol]
  | constant c => c.word
  | call f => f.name
  | leftParen => "("
  | rightParen => ")"
  | delete => "DEL"
  | clear .line => "C"
  | clear .outputs => "CLR"
  | clear .everything => "AC"

/-- The explanation of a key that does not write what its label says. -/
def hint? : Key → Option String
  | delete => some "Efface le dernier symbole (ou un appel entier)"
  | clear .line => some "Efface seulement l’entrée"
  | clear .outputs => some "Efface résultat + avertissements + erreur + démarche"
  | clear .everything => some "Remise à zéro totale (historique compris)"
  | _ => none

/-! ## The keypad -/

/-- The row of the clearing keys and the symbols. -/
def symbolRow : List Key :=
  [clear .line, clear .outputs, clear .everything, leftParen, rightParen,
    operator (.product .modulo), operator (.product .power), constant .pi, constant .euler]

/-- The catalogue of the functions. -/
def functionRows : List Key :=
  MathFunction.all.map call

/-- The pad of the digits. -/
def digitRows : List Key :=
  [digit 7, digit 8, digit 9, delete,
    digit 4, digit 5, digit 6, operator (.product .over),
    digit 1, digit 2, digit 3, operator (.product .times),
    digit 0, point, operator (.sum .minus), operator (.sum .plus)]

/-- All the keys, row by row. -/
def all : List Key :=
  symbolRow ++ functionRows ++ digitRows

/-- The key with a label. -/
def ofLabel? (label : String) : Option Key :=
  all.find? fun k => k.label = label

end Key

end DeskCalculator
