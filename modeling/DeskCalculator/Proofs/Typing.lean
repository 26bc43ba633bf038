import DeskCalculator.Proofs.Composition
import DeskCalculator.Proofs.Numerals
import DeskCalculator.Proofs.Spacing
import DeskCalculator.Proofs.Writing

/-!
# What a typed line is read as

Digits and points are written one behind the other, and make one number as long as nothing else is
typed. Every other symbol is kept apart from what stands in front of it (`Line.Written.parted`) and from a
number behind it (`Line.isNumeric_getLast?_edit`), so that the line is read key by key
(`Line.readsAs_edit`) or, where a number is typed, run by run (`Line.readsAs_typed`).
-/

namespace DeskCalculator

open TokenStream (ReadsAs isNumeric)

/-! ## What the keys say -/

/-- The number that digits and points spell. -/
def Lexeme.numeral (cs : List Char) : Lexeme :=
  .number (Decimal.ofNumeral cs).toFloat (cs.contains '.')

/-- The lexemes of a key that is no part of a number. -/
def Key.lexemes : Key → List Lexeme
  | operator op => [.operator op]
  | constant c => [.constant c]
  | call f => [.name f.name, .leftParen]
  | leftParen => [.leftParen]
  | rightParen => [.rightParen]
  | _ => []

/-- The lexemes of some keys: one number for each longest run of digits and points, and the lexemes of
each other key. -/
def typedLexemes (keys : List Key) : List Lexeme :=
  match keys with
  | [] => []
  | k :: keys =>
    if k.isNumeric then
      .numeral ((k :: keys.takeWhile Key.isNumeric).flatMap Key.symbol) ::
        typedLexemes (keys.dropWhile Key.isNumeric)
    else
      k.lexemes ++ typedLexemes keys
termination_by keys.length
decreasing_by
  · exact Nat.lt_succ_of_le (List.dropWhile_sublist Key.isNumeric).length_le
  · exact Nat.lt_succ_self _

/-- Whether every point is typed directly behind a digit, and no two in one run of digits and points. -/
structure Punctuated (keys : List Key) : Prop where
  behind_digit : ∀ before after, keys = before ++ .point :: after →
    ∃ d, before.getLast? = some (.digit d)
  once : ∀ run, run <:+: keys → (∀ k ∈ run, k.isNumeric = true) → run.count .point ≤ 1

theorem Punctuated.of_append {front rest : List Key} (h : Punctuated (front ++ rest))
    (hrest : rest.head? ≠ some .point) : Punctuated rest where
  behind_digit before after hafter := by
    obtain ⟨d, hd⟩ := h.behind_digit (front ++ before) after (by rw [hafter, List.append_assoc])
    rcases before with _ | ⟨k, before⟩
    · rw [hafter] at hrest
      exact absurd rfl hrest
    · rw [List.getLast?_append_of_ne_nil _ (List.cons_ne_nil k before)] at hd
      exact ⟨d, hd⟩
  once run hrun := h.once run (hrun.trans (List.suffix_append front rest).isInfix)

/-! ## The symbols -/

namespace Key

variable {k : Key}

theorem isNumeric_of_mem_symbol (h : k.isNumeric = false) :
    ∀ c ∈ k.symbol, TokenStream.isNumeric c = false := by
  have hall : ∀ k ∈ all, k.isNumeric = false → k.symbol.all (!TokenStream.isNumeric ·) = true := by
    decide +kernel
  intro c hc
  rw [← Bool.not_eq_true']
  exact List.all_eq_true.1 (hall k k.mem_all h) c hc

/-- A symbol with a letter in it is a word. -/
theorem isWord_of_mem_symbol : ∀ c ∈ k.symbol, c.isAlpha = true → k.isWord = true := by
  have hall : ∀ k ∈ all, k.symbol.any Char.isAlpha = true → k.isWord = true := by decide +kernel
  intro c hc halpha
  exact hall k k.mem_all (List.any_eq_true.2 ⟨c, hc, halpha⟩)

theorem readsAs_symbol (hwrites : k.writes = true) (h : k.isNumeric = false) :
    ReadsAs k.symbol k.lexemes := by
  cases k with
  | digit d => cases h
  | point => cases h
  | operator op => exact (TokenStream.oneToken_symbol (Lexeme.ofSymbol?_symbol op)).readsAs
  | constant c =>
    have hword : TokenStream.OneToken c.word.toList (.ofWord c.word.toList) :=
      TokenStream.oneToken_word (by cases c <;> decide)
        (List.all_eq_true.1 (by cases c <;> decide))
    have hlexeme : Lexeme.ofWord c.word.toList = .constant c := by cases c <;> decide +kernel
    rw [hlexeme] at hword
    exact hword.readsAs
  | call f =>
    have hname : f.name.toList = f.name.toList.map Char.toLower := by cases f <;> decide +kernel
    have hparen : ReadsAs ['('] [.leftParen] := (TokenStream.oneToken_symbol rfl).readsAs
    exact (MathFunction.oneToken_of_toLower hname).readsAs.append hparen (by decide) (by decide)
  | leftParen => exact (TokenStream.oneToken_symbol rfl).readsAs
  | rightParen => exact (TokenStream.oneToken_symbol rfl).readsAs
  | delete => cases hwrites
  | clear scope => cases hwrites

/-! ## Numerals -/

theorem isDigit_digitChar (d : Fin 10) : d.val.digitChar.isDigit = true := by
  revert d
  decide

theorem isNumeric_symbol (h : k.isNumeric = true) :
    ∃ c, k.symbol = [c] ∧ TokenStream.isNumeric c = true ∧ (c = '.' ↔ k = point) := by
  cases k with
  | digit d =>
    have hdigit := isDigit_digitChar d
    refine ⟨d.val.digitChar, rfl, by rw [TokenStream.isNumeric, hdigit]; rfl, fun hpoint => ?_,
      fun hpoint => nomatch hpoint⟩
    exact absurd hpoint (Decimal.point_ne_of_isDigit hdigit)
  | point => exact ⟨'.', rfl, rfl, iff_of_true rfl rfl⟩
  | _ => cases h

/-- The digits and points of a run are numeric characters, with as many points as keys for one. -/
theorem isNumeric_flatMap_symbol {run : List Key} (h : ∀ k ∈ run, k.isNumeric = true) :
    (∀ c ∈ run.flatMap symbol, TokenStream.isNumeric c = true) ∧
      (run.flatMap symbol).count '.' = run.count .point := by
  induction run with
  | nil => exact ⟨List.forall_mem_nil _, rfl⟩
  | cons k run ih =>
    obtain ⟨hk, hrun⟩ := List.forall_mem_cons.1 h
    obtain ⟨c, hsymbol, hnumeric, hpoint⟩ := isNumeric_symbol hk
    obtain ⟨hall, hcount⟩ := ih hrun
    rw [List.flatMap_cons, hsymbol, List.singleton_append]
    refine ⟨List.forall_mem_cons.2 ⟨hnumeric, hall⟩, ?_⟩
    simp only [List.count_cons, hcount, beq_iff_eq, hpoint]

/-- Digits and points with a digit in front and no two points spell a numeral. -/
theorem isNumeral_flatMap_symbol {d : Fin 10} {run : List Key}
    (h : ∀ k ∈ digit d :: run, k.isNumeric = true) (honce : (digit d :: run).count .point ≤ 1) :
    IsNumeral ((digit d :: run).flatMap symbol) := by
  obtain ⟨hnumeric, hcount⟩ := isNumeric_flatMap_symbol h
  exact ⟨hnumeric, ⟨d.val.digitChar, run.flatMap symbol, rfl, isDigit_digitChar d⟩, hcount ▸ honce⟩

end Key

/-! ## One key -/

/-- Texts that differ in blanks at their ends only are read alike. -/
theorem TokenStream.ReadsAs.of_trimEnd_eq {cs cs' : List Char} {ls : List Lexeme}
    (h : Text.trimEnd cs = Text.trimEnd cs') (hcs : ReadsAs cs ls) : ReadsAs cs' ls := by
  obtain ⟨blanks, hblanks, hsplit⟩ := Text.exists_blanks cs
  obtain ⟨blanks', hblanks', hsplit'⟩ := Text.exists_blanks cs'
  rw [hsplit', readsAs_append_blanks hblanks', ← h]
  rwa [hsplit, readsAs_append_blanks hblanks] at hcs

namespace Line

variable {line front tail : List Char} {k : Key}

/-- A symbol other than a digit or a point is kept apart from what stands in front of it. -/
theorem Written.parted (h : Written line k front tail) (hk : k.isNumeric = false) :
    Slice.Parted front k.symbol := by
  intro c hc d hd
  have hd := List.mem_of_mem_head? hd
  refine ⟨fun hnumeric => ?_, fun halpha => ?_⟩
  · rw [Key.isNumeric_of_mem_symbol hk d hd] at hnumeric
    cases hnumeric
  · exact (Bool.or_eq_false_iff.1 (h.apart (Key.isWord_of_mem_symbol d hd halpha) c hc)).1

/-- No number goes on behind a symbol other than a digit or a point. -/
theorem isNumeric_getLast?_edit (hwrites : k.writes = true) (hk : k.isNumeric = false) :
    ∀ c ∈ (edit k line).getLast?, isNumeric c = false := by
  obtain ⟨front, tail, h⟩ := exists_written hwrites line
  have hne : k.symbol ++ tail ≠ [] :=
    List.append_ne_nil_of_left_ne_nil (Key.symbol_ne_nil hwrites) tail
  intro c hc
  rw [h.edit_eq, List.append_assoc] at hc
  rcases List.mem_append.1 (Slice.mem_of_getLast?_append hne hc) with hc | hc
  · exact Key.isNumeric_of_mem_symbol hk c hc
  · exact TokenStream.isNumeric_of_isBlank (h.tail_blank c hc)

/-- A key other than a digit or a point adds its lexemes to those of the line. -/
theorem readsAs_edit {ls : List Lexeme} (hline : ReadsAs line ls) (hwrites : k.writes = true)
    (hk : k.isNumeric = false) : ReadsAs (edit k line) (ls ++ k.lexemes) := by
  obtain ⟨front, tail, h⟩ := exists_written hwrites line
  rw [h.edit_eq, TokenStream.readsAs_append_blanks h.tail_blank]
  exact (hline.of_trimEnd_eq h.trimEnd_front.symm).append_of_parted
    (Key.readsAs_symbol hwrites hk) (h.parted hk)

/-! ## Runs of digits and points -/

theorem typed_isNumeric (line : List Char) {run : List Key} (h : ∀ k ∈ run, k.isNumeric = true) :
    typed line run = line ++ run.flatMap Key.symbol := by
  induction run generalizing line with
  | nil => exact (List.append_nil line).symm
  | cons k run ih =>
    obtain ⟨hk, hrun⟩ := List.forall_mem_cons.1 h
    have hedit : edit k line = line ++ k.symbol := by
      cases k with
      | digit d => rfl
      | point => rfl
      | _ => cases hk
    rw [typed_cons, ih _ hrun, hedit, List.flatMap_cons, List.append_assoc]

/-- A run of digits and points adds one number to the lexemes of a line that ends with none. -/
theorem readsAs_typed_run {ls : List Lexeme} {d : Fin 10} {run : List Key} (hline : ReadsAs line ls)
    (hfront : ∀ c ∈ line.getLast?, isNumeric c = false)
    (hrun : ∀ k ∈ Key.digit d :: run, k.isNumeric = true)
    (honce : (Key.digit d :: run).count .point ≤ 1) :
    ReadsAs (typed line (.digit d :: run))
      (ls ++ [.numeral ((Key.digit d :: run).flatMap Key.symbol)]) := by
  have hnumeral := Key.isNumeral_flatMap_symbol hrun honce
  rw [typed_isNumeric line hrun]
  refine hline.append_of_parted (TokenStream.oneToken_numeral hnumeral).readsAs ?_
  intro c hc d hd
  have hnumeric := hnumeral.numeric d (List.mem_of_mem_head? hd)
  refine ⟨fun _ => hfront c hc, fun halpha => ?_⟩
  rw [Slice.isAlpha_of_isNumeric hnumeric] at halpha
  cases halpha

/-! ## Several keys -/

/-- The lexemes of some keys are added to those of a line that ends with no number. -/
theorem readsAs_typed {ls : List Lexeme} {keys : List Key} (hline : ReadsAs line ls)
    (hkeys : ∀ k ∈ keys, k.writes = true) (hpoints : Punctuated keys)
    (hfront : ∀ k ∈ keys.head?, k.isNumeric = true → ∀ c ∈ line.getLast?, isNumeric c = false) :
    ReadsAs (typed line keys) (ls ++ typedLexemes keys) := by
  fun_induction typedLexemes keys generalizing line ls with
  | case1 =>
    rw [List.append_nil]
    exact hline
  | case2 k keys hk ih =>
    -- the run that the first key begins is all that the line is read with before the next key
    obtain ⟨d, rfl⟩ : ∃ d, k = .digit d := by
      cases k with
      | digit d => exact ⟨d, rfl⟩
      | point => exact absurd (hpoints.behind_digit [] keys rfl) (by rintro ⟨d, hd⟩; cases hd)
      | _ => cases hk
    have hsplit : .digit d :: keys =
        (.digit d :: keys.takeWhile Key.isNumeric) ++ keys.dropWhile Key.isNumeric := by
      rw [List.cons_append, List.takeWhile_append_dropWhile]
    have hrun : ∀ k ∈ Key.digit d :: keys.takeWhile Key.isNumeric, k.isNumeric = true :=
      List.forall_mem_cons.2 ⟨rfl, fun k hk => List.mem_takeWhile_imp hk⟩
    have hnext : ∀ k ∈ (keys.dropWhile Key.isNumeric).head?, k.isNumeric = false :=
      Scanner.head?_dropWhile_eq_false
    rw [hsplit] at hkeys hpoints
    have hnumber := readsAs_typed_run hline (hfront _ rfl rfl) hrun
      (hpoints.once _ (List.prefix_append _ _).isInfix hrun)
    rw [hsplit, typed_append, List.append_cons ls]
    refine ih hnumber (List.forall_mem_append.1 hkeys).2 (hpoints.of_append ?_) fun k hk hnumeric => ?_
    · exact fun hpoint => absurd (hnext _ hpoint) (by decide)
    · exact absurd hnumeric (Bool.eq_false_iff.1 (hnext k hk))
  | case3 k keys hk ih =>
    have hk := Bool.eq_false_iff.2 hk
    obtain ⟨hwrites, hkeys⟩ := List.forall_mem_cons.1 hkeys
    have hrest : keys.head? ≠ some .point := by
      intro hpoint
      obtain ⟨after, rfl⟩ := List.head?_eq_some_iff.1 hpoint
      obtain ⟨d, hd⟩ := hpoints.behind_digit [k] after rfl
      obtain rfl := Option.some.inj hd
      cases hk
    rw [← List.append_assoc]
    exact ih (readsAs_edit hline hwrites hk) hkeys (@Punctuated.of_append [k] keys hpoints hrest)
      fun _ _ _ => isNumeric_getLast?_edit hwrites hk

end Line

namespace Desk

/-- What is typed on an empty line is all readable, and is read as the keys say. -/
theorem run_press_readable {d : Desk} (hline : d.line = "") {keys : List Key}
    (hkeys : ∀ k ∈ keys, k.writes = true) (hpoints : Punctuated keys) :
    (TokenStream.ofString (d.run (keys.map .press)).line).Readable ∧
      (TokenStream.ofString (d.run (keys.map .press)).line).tokens.map Token.lexeme =
        typedLexemes keys := by
  have hrun : (d.run (keys.map .press)).line.toList = Line.typed [] keys := by
    rcases keys with _ | ⟨k, keys⟩
    · rw [List.map_nil, run_nil, hline]
      rfl
    · rw [run_press d (List.cons_ne_nil k keys) fun k hk => .inl (hkeys k hk)]
      simp only [String.toList_ofList, hline]
      rfl
  have hread := Line.readsAs_typed TokenStream.readsAs_nil hkeys hpoints fun _ _ _ c hc => nomatch hc
  obtain ⟨ts, n, hscan, hts⟩ := hread 0
  rw [← hrun] at hscan
  have hitems : (TokenStream.ofString (d.run (keys.map .press)).line).items = ts.map .ok :=
    congrArg TokenStream.items hscan
  refine ⟨TokenStream.readable_of_items_eq hitems (congrArg TokenStream.stop hscan), ?_⟩
  rw [TokenStream.tokens_of_items_eq hitems, hts, List.nil_append]

/-- Letters behind a digit and behind letters, and digits behind a letter and a parenthesis. -/
theorem run_press_readable_words :
    let keys : List Key := [.digit 2, .point, .digit 5, .constant .pi, .call .cos, .constant .euler,
      .digit 0, .rightParen, .digit 1]
    (TokenStream.ofString (({} : Desk).run (keys.map .press)).line).Readable ∧
      (TokenStream.ofString (({} : Desk).run (keys.map .press)).line).tokens.map Token.lexeme =
        [.number 2.5 true, .constant .pi, .name "cos", .leftParen, .constant .euler,
          .number 0 false, .rightParen, .number 1 false] := by
  intro keys
  have hpoints : Punctuated keys := by
    refine ⟨fun before after h => ?_, fun run hrun _ => ?_⟩
    · obtain ⟨rfl, -⟩ : before = [.digit 2] ∧ after = keys.drop 2 := by
        simpa [keys, List.cons_eq_append_iff] using h
      exact ⟨2, rfl⟩
    · exact Nat.le_trans (hrun.sublist.count_le .point) (by decide)
  have hlexemes : typedLexemes keys = [.number 2.5 true, .constant .pi, .name "cos", .leftParen,
      .constant .euler, .number 0 false, .rightParen, .number 1 false] := by
    decide +kernel
  rw [← hlexemes]
  exact run_press_readable rfl (by decide) hpoints

end Desk

end DeskCalculator
