import DeskCalculator.Text.Pictureless

/-!
# Quoted text

A quotation stands between double quotes. The quote and the backslash inside it follow a backslash,
and every character with no picture of its own is replaced by a name: a letter after a backslash for
four of the controls, its code point in hexadecimal for the others.
-/

namespace DeskCalculator.Text

/-- A character as it is written in a quotation. -/
def escape (c : Char) : List Char :=
  match c with
  | '\x00' => ['\\', '0']
  | '\t' => ['\\', 't']
  | '\n' => ['\\', 'n']
  | '\r' => ['\\', 'r']
  | '\\' => ['\\', '\\']
  | '\x22' => ['\\', '\x22']
  | c =>
    if isPictureless c then ['\\', 'u', '\x7b'] ++ Nat.toDigits 16 c.toNat ++ ['\x7d']
    else [c]

/-- The quotation of a text. -/
def quote (s : String) : String :=
  String.ofList ('\x22' :: s.toList.flatMap escape ++ ['\x22'])

end DeskCalculator.Text
