import DeskCalculator.Token.Stream
import Mathlib.Data.List.TakeWhile

/-!
# Readings

The readings of a text are a sequence that never ends: its tokens and malformed numbers, then the end
of the input or an unknown operator for ever. A text is readable when all its readings are tokens up
to the end (`Readable`). Where a text stands shows in the positions only (`scan_add`), and the readings
before a character that continues no number and no word do not depend on what follows (`scan_append`),
so that texts are read part by part (`ReadsAs`).
-/

namespace DeskCalculator

/-- Readings that start with some tokens. -/
def StartsWith (r : Nat → Except LexicalError Lookahead) (ts : List Token) : Prop :=
  ∀ (i : Nat) (h : i < ts.length), r i = .ok (.token ts[i])

theorem startsWith_nil (r : Nat → Except LexicalError Lookahead) : StartsWith r [] :=
  fun _ h => absurd h (Nat.not_lt_zero _)

theorem startsWith_cons {r : Nat → Except LexicalError Lookahead} {t : Token} {ts : List Token} :
    StartsWith r (t :: ts) ↔ r 0 = .ok (.token t) ∧ StartsWith (fun i => r (i + 1)) ts := by
  constructor
  · intro h
    exact ⟨h 0 (Nat.succ_pos _), fun i hi => h (i + 1) (Nat.succ_lt_succ hi)⟩
  · rintro ⟨h0, h⟩ i hi
    cases i with
    | zero => exact h0
    | succ i => exact h i (Nat.lt_of_succ_lt_succ hi)

theorem startsWith_concat {r : Nat → Except LexicalError Lookahead} {t : Token} {ts : List Token} :
    StartsWith r (ts ++ [t]) ↔ StartsWith r ts ∧ r ts.length = .ok (.token t) := by
  induction ts generalizing r with
  | nil => simp [startsWith_cons, startsWith_nil]
  | cons t' ts ih => rw [List.cons_append, startsWith_cons, startsWith_cons, ih, and_assoc]; rfl

theorem startsWith_append {r : Nat → Except LexicalError Lookahead} {us vs : List Token} :
    StartsWith r (us ++ vs) ↔ StartsWith r us ∧ StartsWith (fun i => r (us.length + i)) vs := by
  induction us generalizing r with
  | nil => simp [startsWith_nil]
  | cons t us ih =>
    rw [List.cons_append, startsWith_cons, startsWith_cons, ih, and_assoc]
    simp only [List.length_cons, Nat.add_right_comm _ 1]

/-- A token that stands `k` characters further on. -/
def Token.shift (k : Nat) (t : Token) : Token :=
  { t with position := t.position + k }

/-- An error that is found `k` characters further on. -/
def LexicalError.shift (k : Nat) : LexicalError → LexicalError
  | .unknownOperator c position => .unknownOperator c (position + k)
  | .malformedNumber text position => .malformedNumber text (position + k)

namespace TokenStream

/-- The readings of a stream, one after the other. -/
def reading (s : TokenStream) (i : Nat) : Except LexicalError Lookahead :=
  match s.items[i]? with
  | some item => item.map .token
  | none => s.stop.map .endOfInput

theorem next_fst (s : TokenStream) : s.next.1 = s.reading 0 := by
  obtain ⟨_ | ⟨item, items⟩, stop⟩ := s <;> rfl

theorem reading_next (s : TokenStream) (i : Nat) : s.next.2.reading i = s.reading (i + 1) := by
  obtain ⟨_ | ⟨item, items⟩, stop⟩ := s <;> rfl

/-! ## Readable streams -/

/-- Whether all readings are tokens up to the end of the input. -/
def Readable (s : TokenStream) : Prop :=
  (∀ item ∈ s.items, item.isOk = true) ∧ s.stop.isOk = true

instance (s : TokenStream) : Decidable s.Readable :=
  inferInstanceAs (Decidable (_ ∧ _))

theorem tokens_of_items_eq {s : TokenStream} {ts : List Token} (h : s.items = ts.map .ok) :
    s.tokens = ts := by
  have hok : ∀ item ∈ ts.map (Except.ok : Token → Item), item.isOk = true := by
    intro item hitem
    obtain ⟨t, -, rfl⟩ := List.mem_map.1 hitem
    rfl
  rw [tokens, h, List.takeWhile_eq_self_iff.2 hok, List.filterMap_map]
  exact List.filterMap_some

theorem readable_of_items_eq {s : TokenStream} {ts : List Token} {n : Nat} (h : s.items = ts.map .ok)
    (hstop : s.stop = .ok n) : s.Readable := by
  refine ⟨fun item hitem => ?_, by rw [hstop]; rfl⟩
  rw [h] at hitem
  obtain ⟨t, -, rfl⟩ := List.mem_map.1 hitem
  rfl

theorem map_ok_filterMap_toOption {items : List Item} (h : ∀ item ∈ items, item.isOk = true) :
    items = (items.filterMap Except.toOption).map .ok := by
  induction items with
  | nil => rfl
  | cons item items ih =>
    cases item with
    | error e => cases h _ List.mem_cons_self
    | ok t => exact congrArg _ (ih fun item hitem => h item (List.mem_cons_of_mem _ hitem))

theorem items_eq_map_tokens {s : TokenStream} (h : ∀ item ∈ s.items, item.isOk = true) :
    s.items = s.tokens.map .ok := by
  rw [tokens, List.takeWhile_eq_self_iff.2 h]
  exact map_ok_filterMap_toOption h

theorem mem_items_of_mem_tokens {s : TokenStream} {t : Token} (h : t ∈ s.tokens) :
    .ok t ∈ s.items := by
  obtain ⟨item, hitem, ht⟩ := List.mem_filterMap.1 h
  cases item with
  | error e => cases ht
  | ok t' =>
    cases ht
    exact (List.takeWhile_sublist _).subset hitem

theorem startsWith_reading {s : TokenStream} {ts : List Token} (h : s.items = ts.map .ok) :
    StartsWith s.reading ts := by
  intro i hi
  rw [reading, h, List.getElem?_map, List.getElem?_eq_getElem hi]
  rfl

theorem reading_length {s : TokenStream} {ts : List Token} (h : s.items = ts.map .ok) :
    s.reading ts.length = s.stop.map .endOfInput := by
  rw [reading, h, List.getElem?_map, List.getElem?_eq_none (Nat.le_refl _)]
  rfl

/-- Where some tokens and then the end of the input are read, nothing else is in the stream. -/
theorem items_eq_of_startsWith {s : TokenStream} {ts : List Token} {position : Nat}
    (h : StartsWith s.reading ts) (hend : s.reading ts.length = .ok (.endOfInput position)) :
    s.items = ts.map .ok ∧ s.stop = .ok position := by
  obtain ⟨items, stop⟩ := s
  induction ts generalizing items with
  | nil =>
    cases items with
    | nil =>
      cases stop with
      | error e => cases hend
      | ok n => cases hend; exact ⟨rfl, rfl⟩
    | cons item items => cases item <;> cases hend
  | cons t ts ih =>
    obtain ⟨h0, h⟩ := startsWith_cons.1 h
    cases items with
    | nil => cases stop <;> cases h0
    | cons item items =>
      obtain ⟨hitems, hstop⟩ := ih items h hend
      cases item with
      | error e => cases h0
      | ok t' =>
        cases h0
        exact ⟨congrArg (List.cons _) hitems, hstop⟩

/-! ## Texts -/

theorem toNat_of_isDigit {c : Char} (h : c.isDigit = true) : 48 ≤ c.toNat ∧ c.toNat ≤ 57 := by
  have hrange : (decide (48 ≤ c.val) && decide (c.val ≤ 57)) = true := h
  simp only [Bool.and_eq_true, decide_eq_true_eq, UInt32.le_iff_toNat_le] at hrange
  exact hrange

theorem toNat_of_isAlpha {c : Char} (h : c.isAlpha = true) :
    65 ≤ c.toNat ∧ c.toNat ≤ 90 ∨ 97 ≤ c.toNat ∧ c.toNat ≤ 122 := by
  have hcases : (c.isUpper || c.isLower) = true := h
  rcases Bool.or_eq_true_iff.1 hcases with hupper | hlower
  · have hrange : decide (65 ≤ c.val ∧ c.val ≤ 90) = true := hupper
    simp only [decide_eq_true_eq, UInt32.le_iff_toNat_le] at hrange
    exact .inl hrange
  · have hrange : (decide (97 ≤ c.val) && decide (c.val ≤ 122)) = true := hlower
    simp only [Bool.and_eq_true, decide_eq_true_eq, UInt32.le_iff_toNat_le] at hrange
    exact .inr hrange

theorem isNumeric_of_isBlank {c : Char} (h : Text.isBlank c = true) : isNumeric c = false := by
  rw [Bool.eq_false_iff, isNumeric, Ne, Bool.or_eq_true]
  rintro (hdigit | hpoint)
  · have hnat := toNat_of_isDigit hdigit
    simp only [Text.isBlank, Bool.or_eq_true, Bool.and_eq_true, decide_eq_true_eq,
      beq_iff_eq] at h
    omega
  · obtain rfl : c = '.' := by simpa using hpoint
    exact absurd h (by decide)

theorem isAlpha_of_isBlank {c : Char} (h : Text.isBlank c = true) : c.isAlpha = false := by
  rw [Bool.eq_false_iff]
  intro halpha
  have hnat := toNat_of_isAlpha halpha
  simp only [Text.isBlank, Bool.or_eq_true, Bool.and_eq_true, decide_eq_true_eq, beq_iff_eq] at h
  omega

/-- The readings of a stream that comes to the end of the input, then those of another. -/
def append (s s' : TokenStream) : TokenStream :=
  match s.stop with
  | .ok _ => ⟨s.items ++ s'.items, s'.stop⟩
  | .error _ => s

theorem cons_append (item : Item) (s s' : TokenStream) :
    (cons item s).append s' = cons item (s.append s') := by
  obtain ⟨items, _ | _⟩ := s <;> rfl

theorem length_takeWhile_add_dropWhile (p : Char → Bool) (cs : List Char) :
    (cs.takeWhile p).length + (cs.dropWhile p).length = cs.length := by
  rw [← List.length_append, List.takeWhile_append_dropWhile]

theorem takeWhile_append_cons_of_neg {p : Char → Bool} {c : Char} (h : p c = false)
    (cs rest : List Char) : (cs ++ c :: rest).takeWhile p = cs.takeWhile p := by
  induction cs with
  | nil => simp [h]
  | cons d cs ih => simp [List.takeWhile_cons, ih]

theorem dropWhile_append_cons_of_neg {p : Char → Bool} {c : Char} (h : p c = false)
    (cs rest : List Char) : (cs ++ c :: rest).dropWhile p = cs.dropWhile p ++ c :: rest := by
  induction cs with
  | nil => simp [h]
  | cons d cs ih =>
    rw [List.cons_append, List.dropWhile_cons, List.dropWhile_cons, ih]
    split <;> rfl

theorem scan_nil (position : Nat) : scan position [] = ⟨[], .ok position⟩ :=
  scan.eq_def position []

theorem scan_cons (position : Nat) (c : Char) (rest : List Char) :
    scan position (c :: rest) =
      if Text.isBlank c then scan (position + 1) rest
      else if c.isDigit then
        let run := c :: rest.takeWhile isNumeric
        cons (readNumber run position) (scan (position + run.length) (rest.dropWhile isNumeric))
      else if c.isAlpha then
        let run := c :: rest.takeWhile Char.isAlpha
        cons (.ok ⟨.ofWord run, position⟩)
          (scan (position + run.length) (rest.dropWhile Char.isAlpha))
      else
        match Lexeme.ofSymbol? c with
        | some lexeme => cons (.ok ⟨lexeme, position⟩) (scan (position + 1) rest)
        | none => ⟨[], .error (.unknownOperator c position)⟩ :=
  scan.eq_def position (c :: rest)

/-- What stands before a character that continues no number and no word is read as if nothing
followed. -/
theorem scan_append {c : Char} (hnumeric : isNumeric c = false) (halpha : c.isAlpha = false)
    (position : Nat) (cs rest : List Char) : scan position (cs ++ c :: rest) =
      (scan position cs).append (scan (position + cs.length) (c :: rest)) := by
  fun_induction scan position cs with
  | case1 position => rfl
  | case2 position d cs hd ih =>
    rw [List.cons_append, scan_cons, if_pos hd, ih, List.length_cons]
    congr 2
    omega
  | case3 position d cs hd hdigit run ih =>
    have hlength := length_takeWhile_add_dropWhile isNumeric cs
    rw [List.cons_append, scan_cons, if_neg hd, if_pos hdigit, cons_append,
      takeWhile_append_cons_of_neg hnumeric, dropWhile_append_cons_of_neg hnumeric]
    simp only
    rw [ih, List.length_cons, List.length_cons]
    congr 3
    omega
  | case4 position d cs hd hdigit hletter run ih =>
    have hlength := length_takeWhile_add_dropWhile Char.isAlpha cs
    rw [List.cons_append, scan_cons, if_neg hd, if_neg hdigit, if_pos hletter, cons_append,
      takeWhile_append_cons_of_neg halpha, dropWhile_append_cons_of_neg halpha]
    simp only
    rw [ih, List.length_cons, List.length_cons]
    congr 3
    omega
  | case5 position d cs hd hdigit hletter lexeme hl ih =>
    rw [List.cons_append, scan_cons, if_neg hd, if_neg hdigit, if_neg hletter, cons_append, hl]
    simp only
    rw [ih, List.length_cons]
    congr 3
    omega
  | case6 position d cs hd hdigit hletter hl =>
    rw [List.cons_append, scan_cons, if_neg hd, if_neg hdigit, if_neg hletter, hl]
    rfl

/-- What stands before a blank is read as if nothing followed. -/
theorem scan_append_blank {c : Char} (hc : Text.isBlank c = true) (position : Nat)
    (cs rest : List Char) : scan position (cs ++ c :: rest) =
      (scan position cs).append (scan (position + cs.length + 1) rest) := by
  rw [scan_append (isNumeric_of_isBlank hc) (isAlpha_of_isBlank hc), scan_cons, if_pos hc]

/-- The end of the input is found behind the last character. -/
theorem stop_scan {position n : Nat} {cs : List Char} (h : (scan position cs).stop = .ok n) :
    n = position + cs.length := by
  fun_induction scan position cs with
  | case1 position =>
    cases h
    rfl
  | case2 position d cs hd ih =>
    have hn := ih h
    rw [List.length_cons]
    omega
  | case3 position d cs hd hdigit run ih =>
    have hn := ih h
    have hlength := length_takeWhile_add_dropWhile isNumeric cs
    rw [List.length_cons] at hn ⊢
    omega
  | case4 position d cs hd hdigit halpha run ih =>
    have hn := ih h
    have hlength := length_takeWhile_add_dropWhile Char.isAlpha cs
    rw [List.length_cons] at hn ⊢
    omega
  | case5 position d cs hd hdigit halpha lexeme hl ih =>
    have hn := ih h
    rw [List.length_cons]
    omega
  | case6 position d cs hd hdigit halpha hl => cases h

/-! ## Texts that stand further on -/

/-- The readings of a text that stands `k` characters further on. -/
def shift (k : Nat) (s : TokenStream) : TokenStream where
  items := s.items.map fun
    | .ok t => .ok (t.shift k)
    | .error e => .error (e.shift k)
  stop := match s.stop with
    | .ok position => .ok (position + k)
    | .error e => .error (e.shift k)

theorem shift_cons_ok (k : Nat) (t : Token) (s : TokenStream) :
    (cons (.ok t) s).shift k = cons (.ok (t.shift k)) (s.shift k) :=
  rfl

theorem shift_cons_readNumber (k : Nat) (run : List Char) (position : Nat) (s : TokenStream) :
    (cons (readNumber run position) s).shift k =
      cons (readNumber run (position + k)) (s.shift k) := by
  rw [readNumber, readNumber]
  split <;> rfl

/-- Where a text stands shows in the positions only. -/
theorem scan_add (position k : Nat) (cs : List Char) :
    scan (position + k) cs = (scan position cs).shift k := by
  fun_induction scan position cs with
  | case1 position =>
    rw [scan_nil]
    rfl
  | case2 position c cs hblank ih => rw [scan_cons, if_pos hblank, ← ih, Nat.add_right_comm]
  | case3 position c cs hblank hdigit run ih =>
    rw [scan_cons, if_neg hblank, if_pos hdigit, shift_cons_readNumber, ← ih, Nat.add_right_comm]
  | case4 position c cs hblank hdigit halpha run ih =>
    rw [scan_cons, if_neg hblank, if_neg hdigit, if_pos halpha, shift_cons_ok, ← ih,
      Nat.add_right_comm]
    rfl
  | case5 position c cs hblank hdigit halpha lexeme hl ih =>
    rw [scan_cons, if_neg hblank, if_neg hdigit, if_neg halpha, hl, shift_cons_ok, ← ih,
      Nat.add_right_comm]
    rfl
  | case6 position c cs hblank hdigit halpha hl =>
    rw [scan_cons, if_neg hblank, if_neg hdigit, if_neg halpha, hl]
    rfl

/-! ## The lexemes of a text -/

theorem ofSymbol?_eq_some {c : Char} {lexeme : Lexeme} (h : Lexeme.ofSymbol? c = some lexeme) :
    (∃ op, lexeme = .operator op ∧ c = op.symbol) ∨ lexeme = .leftParen ∧ c = '(' ∨
      lexeme = .rightParen ∧ c = ')' := by
  unfold Lexeme.ofSymbol? at h
  split at h
  · cases h; exact .inr (.inl ⟨rfl, rfl⟩)
  · cases h; exact .inr (.inr ⟨rfl, rfl⟩)
  · obtain ⟨op, hop, rfl⟩ := Option.map_eq_some_iff.1 h
    exact .inl ⟨op, rfl, by simpa [eq_comm] using List.find?_some hop⟩

/-- A symbol is no blank and continues no number and no word. -/
theorem classes_of_ofSymbol? {c : Char} {lexeme : Lexeme} (h : Lexeme.ofSymbol? c = some lexeme) :
    Text.isBlank c = false ∧ isNumeric c = false ∧ c.isAlpha = false := by
  rcases ofSymbol?_eq_some h with ⟨op, -, rfl⟩ | ⟨-, rfl⟩ | ⟨-, rfl⟩
  · rcases op with (_ | _) | (_ | _ | _ | _) <;> decide
  · decide
  · decide

/-- What the lexemes of a text are made of: the digits and points of a number, the letters of a word, or
a symbol. -/
inductive Scanned : Lexeme → Prop
  | number (run : List Char) :
      Scanned (.number (Decimal.ofNumeral run).toFloat (run.contains '.'))
  | constant (c : Constant) : Scanned (.constant c)
  | name {run : List Char} (hne : run ≠ []) (hrun : ∀ c ∈ run, c.isAlpha = true)
      (hword : Lexeme.ofWord run = .name (String.ofList run)) : Scanned (.name (String.ofList run))
  | operator (op : Operator) : Scanned (.operator op)
  | leftParen : Scanned .leftParen
  | rightParen : Scanned .rightParen

theorem scanned_ofWord {run : List Char} (hne : run ≠ []) (hrun : ∀ c ∈ run, c.isAlpha = true) :
    Scanned (.ofWord run) := by
  by_cases hpi : run.map Char.toLower = ['p', 'i']
  · rw [Lexeme.ofWord, if_pos hpi]
    exact .constant .pi
  by_cases heuler : run.map Char.toLower = ['e']
  · rw [Lexeme.ofWord, if_neg hpi, if_pos heuler]
    exact .constant .euler
  · have hword : Lexeme.ofWord run = .name (String.ofList run) := by
      rw [Lexeme.ofWord, if_neg hpi, if_neg heuler]
    rw [hword]
    exact .name hne hrun hword

theorem scanned_of_ofSymbol? {c : Char} {lexeme : Lexeme} (h : Lexeme.ofSymbol? c = some lexeme) :
    Scanned lexeme := by
  rcases ofSymbol?_eq_some h with ⟨op, rfl, -⟩ | ⟨rfl, -⟩ | ⟨rfl, -⟩
  · exact .operator op
  · exact .leftParen
  · exact .rightParen

theorem scanned_of_mem_scan {position : Nat} {cs : List Char} {t : Token}
    (h : .ok t ∈ (scan position cs).items) : Scanned t.lexeme := by
  fun_induction scan position cs with
  | case1 position => cases h
  | case2 position d cs hd ih => exact ih h
  | case3 position d cs hd hdigit run ih =>
    rcases List.mem_cons.1 h with ht | ht
    · rw [readNumber] at ht
      split at ht
      · cases ht
        exact .number run
      · cases ht
    · exact ih ht
  | case4 position d cs hd hdigit halpha run ih =>
    rcases List.mem_cons.1 h with ht | ht
    · cases ht
      refine scanned_ofWord (List.cons_ne_nil _ _) (List.forall_mem_cons.2 ⟨halpha, fun c hc => ?_⟩)
      exact List.mem_takeWhile_imp hc
    · exact ih ht
  | case5 position d cs hd hdigit halpha lexeme hl ih =>
    rcases List.mem_cons.1 h with ht | ht
    · cases ht
      exact scanned_of_ofSymbol? hl
    · exact ih ht
  | case6 position d cs hd hdigit halpha hl => cases h

/-- The names of a text are made of letters. -/
theorem isAlpha_of_mem_scan {position : Nat} {cs : List Char} {t : Token} {name : String}
    (ht : .ok t ∈ (scan position cs).items) (hname : t.lexeme = .name name) :
    name.toList.all Char.isAlpha = true := by
  have hscanned := scanned_of_mem_scan ht
  rw [hname] at hscanned
  cases hscanned with
  | name hne hrun hword =>
    rw [String.toList_ofList]
    exact List.all_eq_true.2 hrun

/-! ## Texts of one token -/

/-- Characters that are read as one lexeme, from the first to the last. -/
def OneToken (cs : List Char) (lexeme : Lexeme) : Prop :=
  ∀ position, scan position cs = ⟨[.ok ⟨lexeme, position⟩], .ok (position + cs.length)⟩

theorem oneToken_word {run : List Char} (hne : run ≠ []) (hrun : ∀ c ∈ run, c.isAlpha = true) :
    OneToken run (.ofWord run) := by
  intro position
  obtain ⟨c, rest, rfl⟩ := List.exists_cons_of_ne_nil hne
  obtain ⟨hc, hrest⟩ := List.forall_mem_cons.1 hrun
  have hblank : ¬ Text.isBlank c = true := by
    intro hblank
    rw [isAlpha_of_isBlank hblank] at hc
    cases hc
  have hdigit : ¬ c.isDigit = true := by
    intro hdigit
    have hnat := toNat_of_isDigit hdigit
    have hletter := toNat_of_isAlpha hc
    omega
  rw [scan_cons, if_neg hblank, if_neg hdigit, if_pos hc, List.takeWhile_eq_self_iff.2 hrest,
    List.dropWhile_eq_nil_iff.2 hrest]
  simp only
  rw [scan_nil]
  rfl

theorem scan_symbol {c : Char} {lexeme : Lexeme} (hc : Lexeme.ofSymbol? c = some lexeme)
    (position : Nat) (rest : List Char) : scan position (c :: rest) =
      cons (.ok ⟨lexeme, position⟩) (scan (position + 1) rest) := by
  obtain ⟨hblank, hnumeric, halpha⟩ := classes_of_ofSymbol? hc
  have hdigit : c.isDigit = false := (Bool.or_eq_false_iff.1 hnumeric).1
  rw [scan_cons, if_neg (Bool.eq_false_iff.1 hblank), if_neg (Bool.eq_false_iff.1 hdigit),
    if_neg (Bool.eq_false_iff.1 halpha), hc]

theorem oneToken_symbol {c : Char} {lexeme : Lexeme} (hc : Lexeme.ofSymbol? c = some lexeme) :
    OneToken [c] lexeme := by
  intro position
  rw [scan_symbol hc, scan_nil]
  rfl

/-! ## Texts of some tokens -/

/-- Characters that are read as some lexemes, to the end and wherever they stand. -/
def ReadsAs (cs : List Char) (lexemes : List Lexeme) : Prop :=
  ∀ position, ∃ (ts : List Token) (n : Nat), scan position cs = ⟨ts.map .ok, .ok n⟩ ∧
    ts.map Token.lexeme = lexemes

theorem readsAs_nil : ReadsAs [] [] :=
  fun position => ⟨[], position, scan_nil position, rfl⟩

theorem OneToken.readsAs {cs : List Char} {lexeme : Lexeme} (h : OneToken cs lexeme) :
    ReadsAs cs [lexeme] :=
  fun position => ⟨[⟨lexeme, position⟩], _, h position, rfl⟩

theorem Readable.readsAs {text : String} (h : (ofString text).Readable) :
    ReadsAs text.toList ((ofString text).tokens.map Token.lexeme) := by
  intro position
  have hitems := items_eq_map_tokens h.1
  have hscan := scan_add 0 position text.toList
  rw [Nat.zero_add] at hscan
  rcases hstop : (ofString text).stop with e | n
  · have hok := h.2
    rw [hstop] at hok
    cases hok
  · refine ⟨(ofString text).tokens.map (Token.shift position), n + position, ?_, ?_⟩
    · rw [hscan, shift]
      rw [ofString] at hitems hstop
      rw [hitems, hstop, List.map_map, List.map_map]
      rfl
    · rw [List.map_map]
      rfl

/-- A character that continues no number and no word keeps apart what stands before it and what
begins with it. -/
theorem ReadsAs.append {c : Char} {cs rest : List Char} {us vs : List Lexeme} (hcs : ReadsAs cs us)
    (hrest : ReadsAs (c :: rest) vs) (hnumeric : isNumeric c = false) (halpha : c.isAlpha = false) :
    ReadsAs (cs ++ c :: rest) (us ++ vs) := by
  intro position
  obtain ⟨ts, n, hscan, hts⟩ := hcs position
  obtain ⟨ts', n', hscan', hts'⟩ := hrest (position + cs.length)
  refine ⟨ts ++ ts', n', ?_, by rw [List.map_append, hts, hts']⟩
  rw [scan_append hnumeric halpha, hscan, hscan', List.map_append]
  rfl

theorem ReadsAs.cons_blank {c : Char} {rest : List Char} {ls : List Lexeme}
    (hc : Text.isBlank c = true) (hrest : ReadsAs rest ls) : ReadsAs (c :: rest) ls := by
  intro position
  rw [scan_cons, if_pos hc]
  exact hrest (position + 1)

theorem ReadsAs.cons {c : Char} {rest : List Char} {lexeme : Lexeme} {ls : List Lexeme}
    (hc : Lexeme.ofSymbol? c = some lexeme) (hrest : ReadsAs rest ls) :
    ReadsAs (c :: rest) (lexeme :: ls) := by
  intro position
  obtain ⟨ts, n, hscan, hts⟩ := hrest (position + 1)
  refine ⟨⟨lexeme, position⟩ :: ts, n, ?_, by rw [List.map_cons, hts]⟩
  rw [scan_symbol hc, hscan]
  rfl

end TokenStream

end DeskCalculator
