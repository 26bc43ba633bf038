import DeskCalculator.Proofs.Readings
import DeskCalculator.Token.Reader

/-!
# Scanners

The readings of a text, made on demand. A scanner holds what is still to be read; each reading leaves
some blanks behind and then one lexeme, unless the scanner stands at the end or at a character that
starts no token, where it stays for ever. `Cut` has one case for each of these, and what one reading
does is read off it (`cut_next`). The stream of a scanner gives the same readings (`next_stream`).
-/

namespace DeskCalculator

/-- What is still to be read of a text, and the index of its first character. -/
structure Scanner where
  position : Nat
  rest : List Char
  deriving DecidableEq, Repr

namespace Scanner

open TokenStream (isNumeric readNumber scan)

def ofString (text : String) : Scanner :=
  ⟨0, text.toList⟩

/-- The next reading of the characters from an index on, and what is left after it. -/
def read (position : Nat) : List Char → Except LexicalError Lookahead × Scanner
  | [] => (.ok (.endOfInput position), ⟨position, []⟩)
  | c :: rest =>
    if Text.isBlank c then read (position + 1) rest
    else if c.isDigit then
      let run := c :: rest.takeWhile isNumeric
      ((readNumber run position).map .token, ⟨position + run.length, rest.dropWhile isNumeric⟩)
    else if c.isAlpha then
      let run := c :: rest.takeWhile Char.isAlpha
      (.ok (.token ⟨.ofWord run, position⟩), ⟨position + run.length, rest.dropWhile Char.isAlpha⟩)
    else
      match Lexeme.ofSymbol? c with
      | some lexeme => (.ok (.token ⟨lexeme, position⟩), ⟨position + 1, rest⟩)
      | none => (.error (.unknownOperator c position), ⟨position, c :: rest⟩)

/-- The next reading, and what is left after it. -/
def next (s : Scanner) : Except LexicalError Lookahead × Scanner :=
  read s.position s.rest

/-- What is left after some readings. -/
def after (s : Scanner) : Nat → Scanner
  | 0 => s
  | n + 1 => s.next.2.after n

/-- The readings that a scanner still holds. -/
def stream (s : Scanner) : TokenStream :=
  scan s.position s.rest

/-! ## Readings on demand -/

/-- A scanner reads what its stream reads. -/
theorem next_stream (s : Scanner) : s.stream.next = (s.next.1, s.next.2.stream) := by
  obtain ⟨position, rest⟩ := s
  show (scan position rest).next = ((read position rest).1, (read position rest).2.stream)
  induction rest generalizing position with
  | nil =>
    rw [scan.eq_def]
    simp [read, stream, scan.eq_def, TokenStream.next, Except.map]
  | cons c rest ih =>
    rw [TokenStream.scan_cons, read]
    split
    · exact ih (position + 1)
    split
    · rfl
    split
    · rfl
    cases hl : Lexeme.ofSymbol? c with
    | some lexeme => rfl
    | none => simp [stream, TokenStream.scan_cons, TokenStream.next, Except.map, *]

theorem reading_stream (s : Scanner) (i : Nat) : s.stream.reading i = (s.after i).next.1 := by
  induction i generalizing s with
  | zero => rw [← TokenStream.next_fst, next_stream]; rfl
  | succ i ih => rw [← TokenStream.reading_next, next_stream, ih]; rfl

/-! ## One reading -/

/-- Whether a character is no blank and starts no token. -/
def StartsNothing (c : Char) : Prop :=
  Text.isBlank c = false ∧ c.isDigit = false ∧ c.isAlpha = false ∧ Lexeme.ofSymbol? c = none

/-- How one reading cuts up what is left: some blanks, then the longest number or word or a symbol, and
what remains. Nothing is cut off at the end and at a character that starts no token. -/
inductive Cut (s : Scanner) : Except LexicalError Lookahead → Scanner → Prop
  | number {blanks run rest : List Char} {c : Char} (hrest : s.rest = blanks ++ c :: run ++ rest)
      (hblanks : ∀ b ∈ blanks, Text.isBlank b = true) (hc : c.isDigit = true)
      (hrun : ∀ d ∈ run, isNumeric d = true) (hlongest : ∀ d ∈ rest.head?, isNumeric d = false) :
      Cut s ((readNumber (c :: run) (s.position + blanks.length)).map .token)
        ⟨s.position + blanks.length + (c :: run).length, rest⟩
  | word {blanks run rest : List Char} {c : Char} (hrest : s.rest = blanks ++ c :: run ++ rest)
      (hblanks : ∀ b ∈ blanks, Text.isBlank b = true) (hc : c.isAlpha = true)
      (hrun : ∀ d ∈ run, d.isAlpha = true) (hlongest : ∀ d ∈ rest.head?, d.isAlpha = false) :
      Cut s (.ok (.token ⟨.ofWord (c :: run), s.position + blanks.length⟩))
        ⟨s.position + blanks.length + (c :: run).length, rest⟩
  | symbol {blanks rest : List Char} {c : Char} {lexeme : Lexeme}
      (hrest : s.rest = blanks ++ c :: rest) (hblanks : ∀ b ∈ blanks, Text.isBlank b = true)
      (hc : Lexeme.ofSymbol? c = some lexeme) :
      Cut s (.ok (.token ⟨lexeme, s.position + blanks.length⟩))
        ⟨s.position + blanks.length + 1, rest⟩
  | endOfInput (hblanks : ∀ b ∈ s.rest, Text.isBlank b = true) :
      Cut s (.ok (.endOfInput (s.position + s.rest.length))) ⟨s.position + s.rest.length, []⟩
  | unknown {blanks rest : List Char} {c : Char} (hrest : s.rest = blanks ++ c :: rest)
      (hblanks : ∀ b ∈ blanks, Text.isBlank b = true) (hc : StartsNothing c) :
      Cut s (.error (.unknownOperator c (s.position + blanks.length)))
        ⟨s.position + blanks.length, c :: rest⟩

/-- A blank in front makes no difference to what is cut off behind it. -/
theorem Cut.cons_blank {position : Nat} {c : Char} {rest : List Char}
    {reading : Except LexicalError Lookahead} {s' : Scanner} (hc : Text.isBlank c = true)
    (h : Cut ⟨position + 1, rest⟩ reading s') : Cut ⟨position, c :: rest⟩ reading s' := by
  have hcons : ∀ {blanks : List Char}, (∀ b ∈ blanks, Text.isBlank b = true) →
      ∀ b ∈ c :: blanks, Text.isBlank b = true := by
    intro blanks hblanks
    exact List.forall_mem_cons.2 ⟨hc, hblanks⟩
  have hlength : ∀ blanks : List Char,
      position + 1 + blanks.length = position + (c :: blanks).length := by
    intro blanks
    rw [List.length_cons]
    omega
  cases h with
  | number hrest hblanks hd hrun hlongest =>
    simp only [hlength]
    exact .number (congrArg (c :: ·) hrest) (hcons hblanks) hd hrun hlongest
  | word hrest hblanks hd hrun hlongest =>
    simp only [hlength]
    exact .word (congrArg (c :: ·) hrest) (hcons hblanks) hd hrun hlongest
  | symbol hrest hblanks hd =>
    simp only [hlength]
    exact .symbol (congrArg (c :: ·) hrest) (hcons hblanks) hd
  | endOfInput hblanks =>
    simp only [hlength]
    exact .endOfInput (hcons hblanks)
  | unknown hrest hblanks hd =>
    simp only [hlength]
    exact .unknown (congrArg (c :: ·) hrest) (hcons hblanks) hd

/-- What is taken while it is in a class ends where something is not in it. -/
theorem head?_dropWhile_eq_false {α : Type} {p : α → Bool} {l : List α} :
    ∀ d ∈ (l.dropWhile p).head?, p d = false := by
  intro d hd
  have h := List.head?_dropWhile_not p l
  rw [Option.mem_def] at hd
  rw [hd] at h
  simpa using h

/-- What one reading does. -/
theorem cut_next (s : Scanner) : s.Cut s.next.1 s.next.2 := by
  obtain ⟨position, rest⟩ := s
  show Cut _ (read position rest).1 (read position rest).2
  induction rest generalizing position with
  | nil => exact .endOfInput fun b hb => nomatch hb
  | cons c rest ih =>
    rw [read]
    by_cases hblank : Text.isBlank c = true
    · rw [if_pos hblank]
      exact (ih (position + 1)).cons_blank hblank
    rw [if_neg hblank]
    have hnone : ∀ b ∈ ([] : List Char), Text.isBlank b = true := fun b hb => nomatch hb
    by_cases hdigit : c.isDigit = true
    · rw [if_pos hdigit]
      refine @Cut.number _ [] _ _ _ ?_ hnone hdigit ?_ head?_dropWhile_eq_false
      · simp only [List.nil_append, List.cons_append, List.takeWhile_append_dropWhile]
      · exact fun d hd => List.mem_takeWhile_imp hd
    rw [if_neg hdigit]
    by_cases halpha : c.isAlpha = true
    · rw [if_pos halpha]
      refine @Cut.word _ [] _ _ _ ?_ hnone halpha ?_ head?_dropWhile_eq_false
      · simp only [List.nil_append, List.cons_append, List.takeWhile_append_dropWhile]
      · exact fun d hd => List.mem_takeWhile_imp hd
    rw [if_neg halpha]
    cases hl : Lexeme.ofSymbol? c with
    | some lexeme => exact @Cut.symbol _ [] _ _ _ rfl hnone hl
    | none =>
      exact @Cut.unknown _ [] _ _ rfl hnone ⟨by simpa using hblank, by simpa using hdigit,
        by simpa using halpha, hl⟩

/-! ## Where a scanner stays -/

theorem next_of_startsNothing {c : Char} (h : StartsNothing c) (position : Nat) (rest : List Char) :
    next ⟨position, c :: rest⟩ = (.error (.unknownOperator c position), ⟨position, c :: rest⟩) := by
  obtain ⟨hblank, hdigit, halpha, hsymbol⟩ := h
  simp [next, read, hblank, hdigit, halpha, hsymbol]

/-- A scanner that stays where one reading has led makes that reading for ever. -/
theorem next_after {s : Scanner} (h : s.next.2.next = s.next) (i : Nat) :
    (s.after i).next = s.next := by
  induction i generalizing s with
  | zero => rfl
  | succ i ih =>
    have hstays : s.next.2.next.2.next = s.next.2.next := by rw [h, h]
    exact (ih hstays).trans h

end Scanner

end DeskCalculator
