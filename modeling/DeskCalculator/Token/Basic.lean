import DeskCalculator.Operator

/-!
# Tokens

A token is a lexeme and the index of its first character, counted in characters from zero. The kinds
of tokens are what messages speak of; the end of the input is one of them, though no token has it.
-/

namespace DeskCalculator

/-- What a message calls a token. -/
inductive Kind
  | integer
  | fractional
  | constant (c : Constant)
  | name
  | operator (op : Operator)
  | leftParen
  | rightParen
  | endOfInput
  deriving DecidableEq, Repr

/-- The text of a kind in a message. -/
def Kind.text : Kind → String
  | .integer => "entier"
  | .fractional => "flottant"
  | .constant c => c.word
  | .name => "identifiant"
  | .operator op => String.ofList ['\x27', op.symbol, '\x27']
  | .leftParen => "'('"
  | .rightParen => "')'"
  | .endOfInput => "fin de saisie"

inductive Lexeme
  /-- A literal, with a point in it or without. -/
  | number (value : Float) (fractional : Bool)
  | constant (c : Constant)
  /-- A word as it was typed. -/
  | name (text : String)
  | operator (op : Operator)
  | leftParen
  | rightParen
  deriving DecidableEq, Repr

namespace Lexeme

def kind : Lexeme → Kind
  | number _ fractional => if fractional then .fractional else .integer
  | constant c => .constant c
  | name _ => .name
  | operator op => .operator op
  | leftParen => .leftParen
  | rightParen => .rightParen

/-- A lexeme as it stands in a listing: a number by its shortest decimal, a word as it was typed. -/
def text : Lexeme → String
  | number value _ => Numeral.text value
  | constant c => c.sign
  | name text => text
  | operator op => String.ofList [op.symbol]
  | leftParen => "("
  | rightParen => ")"

/-- The lexeme of a single symbol. -/
def ofSymbol? : Char → Option Lexeme
  | '(' => some leftParen
  | ')' => some rightParen
  | c => (Operator.all.find? fun op => op.symbol = c).map operator

theorem ofSymbol?_symbol (op : Operator) : ofSymbol? op.symbol = some (operator op) := by
  rcases op with op | op <;> cases op <;> rfl

/-- The lexeme of a word: a constant in any letter case, or a name. -/
def ofWord (word : List Char) : Lexeme :=
  let lower := word.map Char.toLower
  if lower = ['p', 'i'] then constant .pi
  else if lower = ['e'] then constant .euler
  else name (String.ofList word)

end Lexeme

structure Token where
  lexeme : Lexeme
  position : Nat
  deriving DecidableEq, Repr

/-- What stands next to be read: a token, or the end of the input at its position. -/
inductive Lookahead
  | token (t : Token)
  | endOfInput (position : Nat)
  deriving DecidableEq, Repr

namespace Lookahead

def kind : Lookahead → Kind
  | token t => t.lexeme.kind
  | endOfInput _ => .endOfInput

def position : Lookahead → Nat
  | token t => t.position
  | endOfInput position => position

end Lookahead

end DeskCalculator
