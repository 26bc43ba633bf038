import DeskCalculator.Keypad.Key
import DeskCalculator.Text.Blank

/-!
# Editing the input line

What the keys write is set apart so that no two symbols run together: an operator stands between
spaces, and a word or an opening parenthesis does not touch a digit, a letter or a closing
parenthesis before it. Erasing takes back a whole symbol with the blanks around it.
-/

namespace DeskCalculator.Line

/-! ## Writing -/

/-- Whether a word written directly after the line would touch a digit, a letter or a closing
parenthesis. -/
def endsSymbol (line : List Char) : Bool :=
  match line.getLast? with
  | some c => c.isAlphanum || c == ')'
  | none => false

/-- The line with a word after it, set apart if needed. -/
def appendWord (line word : List Char) : List Char :=
  if endsSymbol line then line ++ ' ' :: word else line ++ word

/-- The line with an operator after it, between spaces. -/
def appendOperator (line : List Char) (symbol : Char) : List Char :=
  let kept := Text.trimEnd line
  if kept.isEmpty then [symbol, ' '] else kept ++ [' ', symbol, ' ']

/-! ## Erasing -/

/-- The words that are erased as a whole: the calls of the functions, and the constant of two
letters. -/
def wholeWords : List (List Char) :=
  MathFunction.all.map (fun f => f.name.toList ++ ['(']) ++ [Constant.pi.word.toList]

/-- The length of the symbol at the end of a line: that of the longest whole word that stands there,
one character if there is none. -/
def lastLength (line : List Char) : Nat :=
  (wholeWords.filter fun word => word.isSuffixOf line).foldl (fun n word => max n word.length) 1

/-- The line without its last symbol and the blanks around that. -/
def erase (line : List Char) : List Char :=
  let kept := Text.trimEnd line
  Text.trimEnd (kept.take (kept.length - lastLength kept))

/-! ## Keys -/

/-- What a key makes of the line. The keys that clear outputs leave it. -/
def edit (k : Key) (line : List Char) : List Char :=
  match k with
  | .digit d => line ++ [d.val.digitChar]
  | .point => line ++ ['.']
  | .operator op => appendOperator line op.symbol
  | .constant c => appendWord line c.word.toList
  | .call f => appendWord line (f.name.toList ++ ['('])
  | .leftParen => appendWord line ['(']
  | .rightParen => Text.trimEnd line ++ [')']
  | .delete => erase line
  | .clear .line => []
  | .clear .outputs => line
  | .clear .everything => []

end DeskCalculator.Line
