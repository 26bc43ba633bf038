import DeskCalculator.Proofs.FirstError
import DeskCalculator.Proofs.Numerals
import DeskCalculator.Proofs.Spacing

/-!
# What an error names

An error names a place of the text, counted in characters, and what stands there. Every reading has been
found in the text: a token and a malformed number are slices of it, an unknown operator is one of its
characters (`found_reading`); and tokens that are read one after the other are read from consecutive
characters, which mean the same by themselves (`Place.exists_readsAs`). So each error can be traced back to
its culprit (`evaluate_culprit`).
-/

namespace DeskCalculator

/-! ## What a reading has found -/

namespace Slice

variable {text : List Char}

theorem parted_nil (rest : List Char) : Parted [] rest := by
  rintro c ⟨⟩

theorem ReadAs.position_eq {w : Slice text} {t : Token} (h : w.ReadAs (.ok t)) :
    t.position = w.start := by
  cases h <;> rfl

theorem ReadAs.chars_leftParen {w : Slice text} {position : Nat}
    (h : w.ReadAs (.ok ⟨.leftParen, position⟩)) : w.chars = ['('] := by
  cases h
  assumption

theorem ReadAs.chars_rightParen {w : Slice text} {position : Nat}
    (h : w.ReadAs (.ok ⟨.rightParen, position⟩)) : w.chars = [')'] := by
  cases h
  assumption

/-- What a slice is read as does not depend on the text around it. -/
theorem ReadAs.oneToken {w : Slice text} {t : Token} (h : w.ReadAs (.ok t)) :
    TokenStream.OneToken w.chars t.lexeme := by
  cases h with
  | number hrun hfirst hpoints =>
    obtain ⟨c, rest, hchars⟩ := List.exists_cons_of_ne_nil w.chars_ne
    have hnumeral : IsNumeral w.chars :=
      ⟨hrun.all, ⟨c, rest, hchars, hfirst c (by rw [hchars]; rfl)⟩, hpoints⟩
    rw [← contains_point hpoints]
    exact TokenStream.oneToken_numeral hnumeral
  | constant hrun c hword =>
    have hconstant : Lexeme.ofWord w.chars = .constant c := by
      cases c with
      | pi => exact if_pos hword
      | euler =>
        have heuler : w.chars.map Char.toLower = ['e'] := hword
        have hpi : ¬ w.chars.map Char.toLower = ['p', 'i'] := by
          rw [heuler]
          decide
        rw [Lexeme.ofWord, if_neg hpi, if_pos heuler]
    rw [← hconstant]
    exact TokenStream.oneToken_word w.chars_ne hrun.all
  | name hrun hword =>
    have hname : Lexeme.ofWord w.chars = .name (String.ofList w.chars) := by
      have hpi : ¬ w.chars.map Char.toLower = ['p', 'i'] := hword .pi
      have heuler : ¬ w.chars.map Char.toLower = ['e'] := hword .euler
      rw [Lexeme.ofWord, if_neg hpi, if_neg heuler]
    rw [← hname]
    exact TokenStream.oneToken_word w.chars_ne hrun.all
  | operator op hchars =>
    rw [hchars]
    exact TokenStream.oneToken_symbol (Lexeme.ofSymbol?_symbol op)
  | leftParen hchars =>
    rw [hchars]
    exact TokenStream.oneToken_symbol rfl
  | rightParen hchars =>
    rw [hchars]
    exact TokenStream.oneToken_symbol rfl

end Slice

/-- How a reading is found in a text. -/
inductive Found (text : List Char) : Except LexicalError Lookahead → Prop
  | token {t : Token} (w : Slice text) (hw : w.ReadAs (.ok t)) : Found text (.ok (.token t))
  | malformed {e : LexicalError} (w : Slice text) (hw : w.ReadAs (.error e)) : Found text (.error e)
  | endOfInput : Found text (.ok (.endOfInput text.length))
  | unknown {c : Char} {position : Nat} (hc : text[position]? = some c) :
      Found text (.error (.unknownOperator c position))

theorem found_reading (text : String) (i : Nat) :
    Found text.toList ((TokenStream.ofString text).reading i) := by
  obtain ⟨slices, last, -, -, hread, hstops⟩ :=
    Slice.exists_slices (List.nil_append text.toList) (Slice.parted_nil _)
  have hstream : Scanner.stream ⟨([] : List Char).length, text.toList⟩ = TokenStream.ofString text := rfl
  rw [hstream] at hread hstops
  rcases Nat.lt_or_ge i slices.length with hi | hi
  · obtain ⟨item, hreading, hitem⟩ := hread i hi
    rw [hreading]
    cases item with
    | ok t => exact .token slices[i] hitem
    | error e => exact .malformed slices[i] hitem
  · obtain ⟨k, rfl⟩ := Nat.exists_eq_add_of_le hi
    cases hstops with
    | endOfInput hr =>
      rw [hr k]
      exact .endOfInput
    | unknown hr _ hc =>
      rw [hr k]
      exact .unknown hc

/-! ## Tokens side by side -/

/-- A place of a text over which no number and no word goes. -/
structure Place (text : List Char) where
  before : List Char
  rest : List Char
  text_eq : before ++ rest = text
  parted : Slice.Parted before rest

namespace Place

variable {text : List Char}

/-- The readings from a place on. -/
def reading (p : Place text) : Nat → Except LexicalError Lookahead :=
  (Scanner.stream ⟨p.before.length, p.rest⟩).reading

def start (text : List Char) : Place text :=
  ⟨[], text, List.nil_append text, Slice.parted_nil text⟩

theorem reading_start (text : String) : (start text.toList).reading = (TokenStream.ofString text).reading :=
  rfl

/-- Whether a place comes some characters and some readings after another. -/
structure After (p q : Place text) (cs : List Char) (n : Nat) : Prop where
  before_eq : q.before = p.before ++ cs
  rest_eq : p.rest = cs ++ q.rest
  reading_eq : ∀ i, q.reading i = p.reading (n + i)

theorem After.trans {p q r : Place text} {cs cs' : List Char} {n n' : Nat} (h : p.After q cs n)
    (h' : q.After r cs' n') : p.After r (cs ++ cs') (n + n') where
  before_eq := by rw [h'.before_eq, h.before_eq, List.append_assoc]
  rest_eq := by rw [h.rest_eq, h'.rest_eq, List.append_assoc]
  reading_eq i := by rw [h'.reading_eq, h.reading_eq, Nat.add_assoc]

/-- The tokens behind those that are read between two places. -/
theorem After.startsWith {p q : Place text} {cs : List Char} (us : List Token)
    {vs : List Token} (h : p.After q cs us.length) (hts : StartsWith p.reading (us ++ vs)) :
    StartsWith q.reading vs := by
  have hreading : q.reading = fun i => p.reading (us.length + i) := funext h.reading_eq
  rw [hreading]
  exact (startsWith_append.1 hts).2

/-- The place behind a slice. -/
def behind (w : Slice text) (h : Slice.Parted (w.before ++ w.chars) w.after) : Place text :=
  ⟨w.before ++ w.chars, w.after, w.text_eq, h⟩

theorem before_behind (w : Slice text) (h : Slice.Parted (w.before ++ w.chars) w.after) :
    (behind w h).before = w.before ++ w.chars :=
  rfl

theorem rest_behind (w : Slice text) (h : Slice.Parted (w.before ++ w.chars) w.after) :
    (behind w h).rest = w.after :=
  rfl

theorem getElem?_add (p : Place text) (i : Nat) : text[p.before.length + i]? = p.rest[i]? :=
  calc text[p.before.length + i]?
    _ = (p.before ++ p.rest)[p.before.length + i]? := by rw [p.text_eq]
    _ = p.rest[i]? := by rw [List.getElem?_append_right (Nat.le_add_right _ _), Nat.add_sub_cancel_left]

/-- What stands between a place and a slice that is not in front of it. -/
theorem exists_between (p : Place text) (w : Slice text) (h : p.before.length ≤ w.start) :
    ∃ cs, w.before = p.before ++ cs ∧ p.rest = cs ++ (w.chars ++ w.after) := by
  have heq := p.text_eq.trans w.text_eq.symm
  rw [List.append_assoc] at heq
  rcases List.append_eq_append_iff.1 heq with ⟨cs, hbefore, hrest⟩ | ⟨cs, hcs, hrest⟩
  · exact ⟨cs, hbefore, hrest⟩
  · have hlength := congrArg List.length hcs
    rw [List.length_append] at hlength
    rw [Slice.start] at h
    obtain rfl : cs = [] := List.eq_nil_of_length_eq_zero (by omega)
    exact ⟨[], by rw [hcs, List.append_nil, List.append_nil], hrest.symm⟩

/-- A token is read from the next characters behind some blanks. -/
theorem exists_slice (p : Place text) {t : Token} (h : p.reading 0 = .ok (.token t)) :
    ∃ (w : Slice text) (blanks : List Char) (q : Place text),
      (∀ b ∈ blanks, Text.isBlank b = true) ∧ w.ReadAs (.ok t) ∧ w.after = q.rest ∧
        p.After q (blanks ++ w.chars) 1 := by
  have hfirst : (Scanner.next ⟨p.before.length, p.rest⟩).1 = .ok (.token t) := by
    rw [← h, reading, Scanner.reading_stream]
    rfl
  rcases Slice.slice_or_stops p.text_eq p.parted with ⟨w, item, hnext, hblanks, hw, hparted⟩ | ⟨-, hstops⟩
  · rw [hnext] at hfirst
    obtain rfl : item = .ok t := by
      cases item with
      | ok t' => cases hfirst; rfl
      | error e => cases hfirst
    obtain ⟨blanks, hbefore, hrest⟩ := p.exists_between w hblanks.1
    refine ⟨w, blanks, behind w hparted, fun b hb => ?_, hw, rfl, ?_, ?_, fun i => ?_⟩
    · obtain ⟨j, hj, rfl⟩ := List.getElem_of_mem hb
      refine hblanks.2 (p.before.length + j) _ (Nat.le_add_right _ _) ?_ ?_
      · rw [Slice.start, hbefore, List.length_append]
        omega
      · rw [p.getElem?_add, hrest, List.getElem?_append_left hj, List.getElem?_eq_getElem hj]
    · rw [before_behind, hbefore, List.append_assoc]
    · rw [rest_behind, hrest, List.append_assoc]
    · have hstop : (w.before ++ w.chars).length = w.stop := List.length_append
      rw [reading, reading, before_behind, rest_behind, hstop, Nat.add_comm 1,
        ← TokenStream.reading_next, Scanner.next_stream, hnext]
  · cases hstops with
    | endOfInput hr => cases (hr 0).symm.trans hfirst
    | unknown hr => cases (hr 0).symm.trans hfirst

/-- Tokens are read from the next characters, and by themselves these are read as the same lexemes. -/
theorem exists_readsAs (p : Place text) {ts : List Token} (h : StartsWith p.reading ts) :
    ∃ cs q, TokenStream.ReadsAs cs (ts.map Token.lexeme) ∧ p.After q cs ts.length := by
  induction ts generalizing p with
  | nil =>
    exact ⟨[], p, TokenStream.readsAs_nil, (List.append_nil _).symm, rfl, fun i => by
      rw [List.length_nil, Nat.zero_add]⟩
  | cons t ts ih =>
    obtain ⟨w, blanks, q, hblanks, hw, -, hq⟩ := p.exists_slice (startsWith_cons.1 h).1
    obtain ⟨cs, r, hcs, hr⟩ := ih q (hq.startsWith [t] h)
    refine ⟨blanks ++ w.chars ++ cs, r, ?_, ?_⟩
    · have hchars : TokenStream.ReadsAs (blanks ++ w.chars) [t.lexeme] := by
        intro position
        rw [TokenStream.scan_blanks_append hblanks]
        exact hw.oneToken.readsAs _
      have hparted : Slice.Parted (blanks ++ w.chars) cs := by
        intro b hb d hd
        have hlast : q.before.getLast? = some b := by
          rw [hq.before_eq, List.getLast?_append, Option.mem_def.1 hb, Option.some_or]
        have hhead : q.rest.head? = some d := by
          rw [hr.rest_eq, List.head?_append, Option.mem_def.1 hd, Option.some_or]
        exact q.parted b hlast d hhead
      exact hchars.append_of_parted hcs hparted
    · rw [List.length_cons, Nat.add_comm]
      exact hq.trans hr

/-- A token is read at the next slice, and the tokens after it behind that. -/
theorem exists_slice_of_startsWith (p : Place text) {t : Token} {ts : List Token}
    (h : StartsWith p.reading (t :: ts)) :
    ∃ (w : Slice text) (blanks : List Char) (q : Place text),
      (∀ b ∈ blanks, Text.isBlank b = true) ∧ w.ReadAs (.ok t) ∧ w.after = q.rest ∧
        p.rest = blanks ++ (w.chars ++ q.rest) ∧ StartsWith q.reading ts := by
  obtain ⟨w, blanks, q, hblanks, hw, hafter, hq⟩ := p.exists_slice (startsWith_cons.1 h).1
  have hrest := hq.rest_eq
  rw [List.append_assoc] at hrest
  exact ⟨w, blanks, q, hblanks, hw, hafter, hrest, hq.startsWith [t] h⟩

/-- Tokens that spell a call are read at a name with an argument in parentheses behind it. -/
theorem exists_call (p : Place text) {name : String} {position : Nat} {rest : List Token}
    {argument : Expression} (h : StartsWith p.reading (⟨.name name, position⟩ :: rest))
    (hcall : (⟨.name name, position⟩ :: rest).map Token.lexeme = (Factor.call name argument).lexemes) :
    ∃ (w : Slice text) (blanks inner after : List Char), w.ReadAs (.ok ⟨.name name, position⟩) ∧
      (∀ b ∈ blanks, Text.isBlank b = true) ∧ w.after = blanks ++ '(' :: (inner ++ ')' :: after) ∧
        TokenStream.ReadsAs inner argument.lexemes := by
  rw [List.map_cons, Factor.lexemes, List.cons.injEq] at hcall
  obtain ⟨⟨_, opening⟩, inside, rfl, rfl, hinside⟩ := List.map_eq_cons_iff.1 hcall.2
  obtain ⟨ts, last, rfl, hts, hlast⟩ := List.map_eq_append_iff.1 hinside
  obtain ⟨⟨_, closing⟩, _, rfl, rfl, hnil⟩ := List.map_eq_cons_iff.1 hlast
  obtain rfl := List.map_eq_nil_iff.1 hnil
  obtain ⟨w, -, q, -, hw, hafter, -, hq⟩ := p.exists_slice_of_startsWith h
  obtain ⟨w₁, blanks, q₁, hblanks, hw₁, -, hrest, hq₁⟩ := q.exists_slice_of_startsWith hq
  obtain ⟨cs, q₂, hcs, hq₂⟩ := q₁.exists_readsAs (startsWith_append.1 hq₁).1
  obtain ⟨w₃, blanks', q₃, hblanks', hw₃, -, hrest₃, -⟩ :=
    q₂.exists_slice_of_startsWith (hq₂.startsWith ts hq₁)
  refine ⟨w, blanks, cs ++ blanks', q₃.rest, hw, hblanks, ?_, ?_⟩
  · rw [hafter, hrest, hw₁.chars_leftParen, hq₂.rest_eq, hrest₃, hw₃.chars_rightParen,
      List.append_assoc]
    rfl
  · rw [TokenStream.readsAs_append_blanks hblanks', ← hts]
    exact hcs

end Place

/-! ## Culprits -/

/-- What stands somewhere in a text: a token that it is read as, or its end. -/
inductive Stands (text : String) : Lookahead → Prop
  | token {i : Nat} {t : Token} (hread : (TokenStream.ofString text).reading i = .ok (.token t))
      (w : Slice text.toList) (hw : w.ReadAs (.ok t)) : Stands text (.token t)
  | endOfInput : Stands text (.endOfInput text.length)

theorem stands_of_reading {text : String} {i : Nat} {current : Lookahead}
    (h : (TokenStream.ofString text).reading i = .ok current) : Stands text current := by
  have hfound := found_reading text i
  rw [h] at hfound
  cases hfound with
  | token w hw => exact .token h w hw
  | endOfInput =>
    rw [String.length_toList]
    exact .endOfInput

/-- Only the end stands behind the last character. -/
theorem Stands.position_eq_length_iff {text : String} {current : Lookahead} (h : Stands text current) :
    current.position = text.length ↔ current.kind = .endOfInput := by
  cases h with
  | @token _ t _ w hw =>
    have hlt : t.position < text.length := by
      rw [hw.position_eq, ← String.length_toList]
      exact Nat.lt_of_lt_of_le w.start_lt_stop w.stop_le_length
    exact iff_of_false (Nat.ne_of_lt hlt) t.kind_ne_endOfInput
  | endOfInput => exact iff_of_true rfl rfl

/-- What an error names in a text. -/
inductive Culprit (text : String) : Error → Prop
  /-- The character at that place. -/
  | unknownOperator {c : Char} {position : Nat} (hc : text.toList[position]? = some c) :
      Culprit text (.lexical (.unknownOperator c position))
  /-- The longest run of digits and points there, which starts with a digit. -/
  | malformedNumber (w : Slice text.toList) (hrun : w.IsRun TokenStream.isNumeric)
      (hfirst : ∀ c ∈ w.chars.head?, c.isDigit = true) (hpoints : 2 ≤ w.chars.count '.') :
      Culprit text (.lexical (.malformedNumber (String.ofList w.chars) w.start))
  /-- What stands there, which is the end exactly if it stands behind the last character. -/
  | unexpected {current : Lookahead} (expected : Expected) (h : Stands text current)
      (hend : current.position = text.length ↔ current.kind = .endOfInput) :
      Culprit text (.unexpected current.kind expected current.position)
  | tooNested {current : Lookahead} (h : Stands text current) :
      Culprit text (.tooNested current.position nestingLimit)
  /-- The longest run of letters there, the name of no function. Behind it, and behind some blanks, stands
  an expression in parentheses. -/
  | unknownFunction (w : Slice text.toList) {argument : Expression} {blanks inner after : List Char}
      (hrun : w.IsRun Char.isAlpha) (hname : MathFunction.ofName? (String.ofList w.chars) = none)
      (hblanks : ∀ b ∈ blanks, Text.isBlank b = true)
      (hafter : w.after = blanks ++ '(' :: (inner ++ ')' :: after))
      (hinner : TokenStream.ReadsAs inner argument.lexemes) :
      Culprit text (.unknownFunction (String.ofList w.chars) w.start)
  | outsideDomain {x : Float} (hx : x < 0.0) : Culprit text (.outsideDomain .sqrt x)

theorem culprit_of_reading {text : String} {i : Nat} {e : LexicalError}
    (h : (TokenStream.ofString text).reading i = .error e) : Culprit text (.lexical e) := by
  have hfound := found_reading text i
  rw [h] at hfound
  cases hfound with
  | malformed w hw =>
    cases hw with
    | malformed hrun hfirst hpoints => exact .malformedNumber w hrun hfirst hpoints
  | unknown hc => exact .unknownOperator hc

/-- A call whose name is that of no function is found in the text. -/
theorem culprit_of_call {text : String} {before rest : List Token} {name : String} {position : Nat}
    {argument : Expression}
    (hts : StartsWith (TokenStream.ofString text).reading (before ++ ⟨.name name, position⟩ :: rest))
    (hcall : (⟨.name name, position⟩ :: rest).map Token.lexeme = (Factor.call name argument).lexemes)
    (hname : MathFunction.ofName? name = none) : Culprit text (.unknownFunction name position) := by
  rw [← Place.reading_start] at hts
  obtain ⟨cs, p, -, hp⟩ := (Place.start text.toList).exists_readsAs (startsWith_append.1 hts).1
  obtain ⟨w, blanks, inner, after, hw, hblanks, hafter, hinner⟩ :=
    p.exists_call (hp.startsWith before hts) hcall
  cases hw with
  | name hrun hword => exact .unknownFunction w hrun hname hblanks hafter hinner

theorem culprit_of_firstError {text : String} {ts : List Token} {e : Error}
    (hts : StartsWith (TokenStream.ofString text).reading ts)
    (h : FirstError (TokenStream.ofString text).reading ts e) : Culprit text e := by
  cases h with
  | unreadableStart _ hcurrent => exact culprit_of_reading hcurrent
  | unreadable _ _ _ hnext => exact culprit_of_reading hnext
  | unknownFunction hsplit hcall _ hname _ =>
    rw [hsplit] at hts
    exact culprit_of_call hts hcall hname
  | outsideDomain _ _ _ _ _ hvalue _ =>
    obtain ⟨rfl, hx⟩ := MathFunction.valueAt?_eq_none_iff.1 hvalue
    exact .outsideDomain hx
  | unexpected hcurrent =>
    have hstands := stands_of_reading hcurrent
    exact .unexpected _ hstands hstands.position_eq_length_iff
  | tooNested hcurrent => exact .tooNested (stands_of_reading hcurrent)

/-- Every error of a text names its culprit: the character that starts no token, the longest run of digits
and points, the token or the end that cannot stand where it stands, or a word that is the name of no
function, in front of an argument in parentheses. Places count characters. Outside its domain is only the
square root, at a negative number. -/
theorem evaluate_culprit {text : String} {e : Error} (h : evaluate text = .error e) : Culprit text e := by
  obtain ⟨ts, -, hts, -, hfirst⟩ := exists_firstError h
  exact culprit_of_firstError hts hfirst

/-- A name behind a wide blank, which is one character. -/
theorem evaluate_culprit_unknown :
    evaluate "2*\u3000foo (1)" = .error (.unknownFunction "foo" 3) ∧
      Culprit "2*\u3000foo (1)" (.unknownFunction "foo" 3) := by
  have h : evaluate "2*\u3000foo (1)" = .error (.unknownFunction "foo" 3) := by decide +kernel
  exact ⟨h, evaluate_culprit h⟩

end DeskCalculator
