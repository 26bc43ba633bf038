import DeskCalculator.Text.Blank
import DeskCalculator.Token.Basic
import DeskCalculator.Token.LexicalError

/-!
# Token streams

A text is read from left to right. Digits and points after a digit belong to one number, letters to
one word, and every other token is a single symbol; blanks are skipped. A malformed number is
skipped too once it has been reported, while a character that starts no token stops the reading for
good, as the end of the input does: these are read again for ever.
-/

namespace DeskCalculator

/-- A token, or what stands unreadable in its place. -/
abbrev Item := Except LexicalError Token

/-- The readings that a text still holds. -/
structure TokenStream where
  /-- The readings that are left behind when they have been made. -/
  items : List Item
  /-- What is read after them for ever: the end of the input at its position, or an error. -/
  stop : Except LexicalError Nat
  deriving Repr

namespace TokenStream

/-! ## From text to readings -/

/-- Whether a character continues a number. -/
def isNumeric (c : Char) : Bool :=
  c.isDigit || c == '.'

/-- The reading of a number: at most one point may stand in it. -/
def readNumber (run : List Char) (position : Nat) : Item :=
  if run.count '.' ≤ 1 then
    .ok ⟨.number (Decimal.ofNumeral run).toFloat (run.contains '.'), position⟩
  else
    .error (.malformedNumber (String.ofList run) position)

/-- The stream that starts with one more reading. -/
def cons (item : Item) (s : TokenStream) : TokenStream :=
  ⟨item :: s.items, s.stop⟩

theorem length_dropWhile_le (p : Char → Bool) (cs : List Char) :
    (cs.dropWhile p).length ≤ cs.length :=
  (List.dropWhile_sublist p).length_le

/-- The readings of a text whose first character has the index `position`. -/
def scan (position : Nat) (cs : List Char) : TokenStream :=
  match cs with
  | [] => ⟨[], .ok position⟩
  | c :: rest =>
    if Text.isBlank c then
      scan (position + 1) rest
    else if c.isDigit then
      let run := c :: rest.takeWhile isNumeric
      cons (readNumber run position) (scan (position + run.length) (rest.dropWhile isNumeric))
    else if c.isAlpha then
      let run := c :: rest.takeWhile Char.isAlpha
      cons (.ok ⟨.ofWord run, position⟩)
        (scan (position + run.length) (rest.dropWhile Char.isAlpha))
    else
      match Lexeme.ofSymbol? c with
      | some lexeme => cons (.ok ⟨lexeme, position⟩) (scan (position + 1) rest)
      | none => ⟨[], .error (.unknownOperator c position)⟩
termination_by cs.length
decreasing_by
  all_goals simp only [List.length_cons]
  · omega
  · exact Nat.lt_succ_of_le (length_dropWhile_le _ _)
  · exact Nat.lt_succ_of_le (length_dropWhile_le _ _)
  · omega

/-- Every reading takes one character at least. -/
theorem length_items_scan_le (position : Nat) (cs : List Char) :
    (scan position cs).items.length ≤ cs.length := by
  fun_induction scan position cs with
  | case1 => exact Nat.le_refl _
  | case2 position c rest hc ih => exact Nat.le_succ_of_le ih
  | case3 position c rest hc hd run ih =>
    have h := length_dropWhile_le isNumeric rest
    simp only [cons, List.length_cons]
    omega
  | case4 position c rest hc hd ha run ih =>
    have h := length_dropWhile_le Char.isAlpha rest
    simp only [cons, List.length_cons]
    omega
  | case5 position c rest hc hd ha lexeme hl ih =>
    simp only [cons, List.length_cons]
    omega
  | case6 => exact Nat.zero_le _

/-- The readings of a text. -/
def ofString (text : String) : TokenStream :=
  scan 0 text.toList

/-! ## Reading -/

/-- The next reading, and what is left after it. -/
def next : TokenStream → Except LexicalError Lookahead × TokenStream
  | ⟨[], stop⟩ => (stop.map .endOfInput, ⟨[], stop⟩)
  | ⟨item :: items, stop⟩ => (item.map .token, ⟨items, stop⟩)

/-- The tokens up to the first that cannot be read. -/
def tokens (s : TokenStream) : List Token :=
  s.items.takeWhile (·.isOk) |>.filterMap Except.toOption

end TokenStream

/-- The tokens of a text up to the first that cannot be read, one space between two of them. -/
def listing (text : String) : String :=
  " ".intercalate ((TokenStream.ofString text).tokens.map (·.lexeme.text))

end DeskCalculator
