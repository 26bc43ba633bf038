import DeskCalculator.Proofs.Scanner

/-!
# How readings cover a text

The readings of a text are slices of it that follow one another, with blanks between them and nothing
else: the longest numbers and words, and single symbols. They come to the end of the text, or to a
character that starts no token, after as many slices as there are characters at most
(`readings_cover`).
-/

namespace DeskCalculator

/-- Some consecutive characters of a text, at least one. -/
structure Slice (text : List Char) where
  before : List Char
  chars : List Char
  after : List Char
  text_eq : before ++ chars ++ after = text
  chars_ne : chars ≠ []

namespace Slice

variable {text : List Char}

/-- The index of the first character. -/
def start (w : Slice text) : Nat :=
  w.before.length

/-- The index behind the last character. -/
def stop (w : Slice text) : Nat :=
  w.before.length + w.chars.length

theorem start_lt_stop (w : Slice text) : w.start < w.stop :=
  Nat.lt_add_of_pos_right (List.length_pos_iff.2 w.chars_ne)

/-- Whether a slice consists of characters of a class and is part of no longer slice that does. -/
structure IsRun (w : Slice text) (p : Char → Bool) : Prop where
  all : ∀ c ∈ w.chars, p c = true
  left : ∀ c ∈ w.before.getLast?, p c = false
  right : ∀ c ∈ w.after.head?, p c = false

/-- How a slice is read. Digits and points after a digit are a number, malformed if there are two
points; letters are a constant, in any case of the letters, or a name; every other slice is a symbol. -/
inductive ReadAs (w : Slice text) : Item → Prop
  | number (hrun : w.IsRun TokenStream.isNumeric) (hfirst : ∀ c ∈ w.chars.head?, c.isDigit = true)
      (hpoints : w.chars.count '.' ≤ 1) :
      ReadAs w (.ok ⟨.number (Decimal.ofNumeral w.chars).toFloat (w.chars.count '.' = 1), w.start⟩)
  | malformed (hrun : w.IsRun TokenStream.isNumeric)
      (hfirst : ∀ c ∈ w.chars.head?, c.isDigit = true) (hpoints : 2 ≤ w.chars.count '.') :
      ReadAs w (.error (.malformedNumber (String.ofList w.chars) w.start))
  | constant (hrun : w.IsRun Char.isAlpha) (c : Constant)
      (hword : w.chars.map Char.toLower = c.word.toList) : ReadAs w (.ok ⟨.constant c, w.start⟩)
  | name (hrun : w.IsRun Char.isAlpha)
      (hword : ∀ c : Constant, w.chars.map Char.toLower ≠ c.word.toList) :
      ReadAs w (.ok ⟨.name (String.ofList w.chars), w.start⟩)
  | operator (op : Operator) (hchars : w.chars = [op.symbol]) :
      ReadAs w (.ok ⟨.operator op, w.start⟩)
  | leftParen (hchars : w.chars = ['(']) : ReadAs w (.ok ⟨.leftParen, w.start⟩)
  | rightParen (hchars : w.chars = [')']) : ReadAs w (.ok ⟨.rightParen, w.start⟩)

/-- Whether a text has blanks only from one index to another. -/
def Blanks (text : List Char) (lo hi : Nat) : Prop :=
  lo ≤ hi ∧ ∀ i c, lo ≤ i → i < hi → text[i]? = some c → Text.isBlank c = true

/-- Slices that follow one another from an index on, with blanks only in front of each; the last ends
at another index. -/
inductive Follow : Nat → List (Slice text) → Nat → Prop
  | nil (n : Nat) : Follow n [] n
  | cons {lo hi : Nat} {w : Slice text} {ws : List (Slice text)} (hblanks : Blanks text lo w.start)
      (hws : Follow w.stop ws hi) : Follow lo (w :: ws) hi

/-- How readings stop behind an index: from some reading on they are the end of the text, or a character
that starts no token. Between the index and the place where they stop are only blanks. -/
inductive Stops (text : List Char) (lo : Nat) (r : Nat → Except LexicalError Lookahead) : Prop
  | endOfInput (hr : ∀ i, r i = .ok (.endOfInput text.length)) (hblanks : Blanks text lo text.length)
  | unknown {c : Char} {position : Nat} (hr : ∀ i, r i = .error (.unknownOperator c position))
      (hblanks : Blanks text lo position) (hc : text[position]? = some c)
      (hblank : Text.isBlank c = false) (hdigit : c.isDigit = false) (halpha : c.isAlpha = false)
      (hsymbol : c ∉ ['+', '-', '*', '/', '%', '^', '(', ')'])

/-! ## Characters and lexemes -/

theorem blanks_of_append {before blanks rest : List Char} (h : before ++ (blanks ++ rest) = text)
    (hblanks : ∀ b ∈ blanks, Text.isBlank b = true) :
    Blanks text before.length (before.length + blanks.length) := by
  refine ⟨Nat.le_add_right _ _, fun i c hlo hhi hc => hblanks c ?_⟩
  rw [← h, List.getElem?_append_right hlo, List.getElem?_append_left (by omega)] at hc
  exact List.mem_of_getElem? hc

theorem ofSymbol?_eq_none {c : Char} (h : Lexeme.ofSymbol? c = none) :
    c ∉ ['+', '-', '*', '/', '%', '^', '(', ')'] := by
  intro hc
  simp only [List.mem_cons, List.not_mem_nil, or_false] at hc
  rcases hc with rfl | rfl | rfl | rfl | rfl | rfl | rfl | rfl <;> exact absurd h (by decide)

theorem isAlpha_of_isNumeric {c : Char} (h : TokenStream.isNumeric c = true) : c.isAlpha = false := by
  rw [Bool.eq_false_iff]
  intro halpha
  have hletter := TokenStream.toNat_of_isAlpha halpha
  rcases Bool.or_eq_true_iff.1 h with hdigit | hpoint
  · have hnat := TokenStream.toNat_of_isDigit hdigit
    omega
  · obtain rfl : c = '.' := by simpa using hpoint
    exact absurd halpha (by decide)

/-! ## One slice -/

/-- Whether no number and no word goes on over the place between some characters and others. -/
def Parted (before rest : List Char) : Prop :=
  ∀ c ∈ before.getLast?, ∀ d ∈ rest.head?,
    (TokenStream.isNumeric d = true → TokenStream.isNumeric c = false) ∧
      (d.isAlpha = true → c.isAlpha = false)

theorem contains_point {cs : List Char} (h : cs.count '.' ≤ 1) :
    cs.contains '.' = decide (cs.count '.' = 1) := by
  rw [Bool.eq_iff_iff, List.contains_iff_mem, ← List.count_pos_iff, decide_eq_true_eq]
  omega

theorem readAs_number {w : Slice text} (hrun : w.IsRun TokenStream.isNumeric)
    (hfirst : ∀ c ∈ w.chars.head?, c.isDigit = true) :
    w.ReadAs (TokenStream.readNumber w.chars w.start) := by
  rw [TokenStream.readNumber]
  split
  · next hpoints =>
    rw [contains_point hpoints]
    exact .number hrun hfirst hpoints
  · next hpoints => exact .malformed hrun hfirst (by omega)

theorem readAs_word {w : Slice text} (hrun : w.IsRun Char.isAlpha) :
    w.ReadAs (.ok ⟨.ofWord w.chars, w.start⟩) := by
  rw [Lexeme.ofWord]
  by_cases hpi : w.chars.map Char.toLower = ['p', 'i']
  · rw [if_pos hpi]
    exact .constant hrun .pi hpi
  by_cases heuler : w.chars.map Char.toLower = ['e']
  · rw [if_neg hpi, if_pos heuler]
    exact .constant hrun .euler heuler
  · rw [if_neg hpi, if_neg heuler]
    refine .name hrun fun c => ?_
    cases c
    · exact hpi
    · exact heuler

theorem readAs_symbol {w : Slice text} {c : Char} {lexeme : Lexeme} (hchars : w.chars = [c])
    (hc : Lexeme.ofSymbol? c = some lexeme) : w.ReadAs (.ok ⟨lexeme, w.start⟩) := by
  rcases TokenStream.ofSymbol?_eq_some hc with ⟨op, rfl, rfl⟩ | ⟨rfl, rfl⟩ | ⟨rfl, rfl⟩
  · exact .operator op hchars
  · exact .leftParen hchars
  · exact .rightParen hchars

theorem mem_of_getLast?_append {before run : List Char} (hne : run ≠ []) {c : Char}
    (hc : c ∈ (before ++ run).getLast?) : c ∈ run := by
  rw [Option.mem_def, List.getLast?_append, List.getLast?_eq_some_getLast hne, Option.some_or] at hc
  exact Option.some.inj hc ▸ List.getLast_mem hne

/-- The slice that starts with a character behind some blanks. -/
def behind (before blanks : List Char) (c : Char) (run after : List Char)
    (h : before ++ (blanks ++ c :: run ++ after) = text) : Slice text :=
  ⟨before ++ blanks, c :: run, after, by rw [← h]; simp, List.cons_ne_nil c run⟩

section Behind

variable {before blanks run after : List Char} {c : Char}
  (h : before ++ (blanks ++ c :: run ++ after) = text)
  (hblanks : ∀ b ∈ blanks, Text.isBlank b = true)

theorem start_behind : (behind before blanks c run after h).start = before.length + blanks.length :=
  List.length_append

theorem stop_behind : (behind before blanks c run after h).stop =
    before.length + blanks.length + (c :: run).length := by
  rw [stop, behind, List.length_append]

include hblanks in
theorem blanks_behind : Blanks text before.length (behind before blanks c run after h).start := by
  rw [start_behind]
  rw [List.append_assoc] at h
  exact blanks_of_append h hblanks

include hblanks in
/-- Characters of a class are a run if no number and no word goes on over the place before the blanks in
front of them, and the class does not go on behind them. -/
theorem isRun_behind {p : Char → Bool} (hblank : ∀ b, Text.isBlank b = true → p b = false)
    (hparted : ∀ b ∈ before.getLast?, ∀ d ∈ (blanks ++ c :: run ++ after).head?,
      p d = true → p b = false)
    (hc : p c = true) (hrun : ∀ d ∈ run, p d = true) (hlongest : ∀ d ∈ after.head?, p d = false) :
    (behind before blanks c run after h).IsRun p := by
  refine ⟨List.forall_mem_cons.2 ⟨hc, hrun⟩, fun b hb => ?_, hlongest⟩
  have hb : b ∈ (before ++ blanks).getLast? := hb
  cases blanks with
  | nil =>
    rw [List.append_nil] at hb
    exact hparted b hb c rfl hc
  | cons d blanks =>
    exact hblank b (hblanks b (mem_of_getLast?_append (List.cons_ne_nil d blanks) hb))

end Behind

/-- The place behind some characters depends on them alone. -/
theorem parted_append {before run rest : List Char} (hne : run ≠ [])
    (hparted : ∀ c ∈ run, ∀ d ∈ rest.head?,
      (TokenStream.isNumeric d = true → TokenStream.isNumeric c = false) ∧
        (d.isAlpha = true → c.isAlpha = false)) :
    Parted (before ++ run) rest :=
  fun c hc => hparted c (mem_of_getLast?_append hne hc)

theorem parted_behind_number {before run rest : List Char} (hne : run ≠ [])
    (hrun : ∀ c ∈ run, TokenStream.isNumeric c = true)
    (hlongest : ∀ d ∈ rest.head?, TokenStream.isNumeric d = false) : Parted (before ++ run) rest := by
  refine parted_append hne fun c hc d hd => ⟨fun hnumeric => ?_, fun _ => ?_⟩
  · exact absurd hnumeric (Bool.eq_false_iff.1 (hlongest d hd))
  · exact isAlpha_of_isNumeric (hrun c hc)

theorem parted_behind_word {before run rest : List Char} (hne : run ≠ [])
    (hrun : ∀ c ∈ run, c.isAlpha = true) (hlongest : ∀ d ∈ rest.head?, d.isAlpha = false) :
    Parted (before ++ run) rest := by
  refine parted_append hne fun c hc d hd => ⟨fun _ => ?_, fun halpha => ?_⟩
  · exact Bool.eq_false_iff.2 fun hnumeric =>
      absurd (hrun c hc) (Bool.eq_false_iff.1 (isAlpha_of_isNumeric hnumeric))
  · exact absurd halpha (Bool.eq_false_iff.1 (hlongest d hd))

theorem parted_behind_symbol {before rest : List Char} {c : Char} {lexeme : Lexeme}
    (hc : Lexeme.ofSymbol? c = some lexeme) : Parted (before ++ [c]) rest := by
  refine parted_append (List.cons_ne_nil c []) fun b hb d _ => ?_
  obtain rfl := List.mem_singleton.1 hb
  obtain ⟨-, hnumeric, halpha⟩ := TokenStream.classes_of_ofSymbol? hc
  exact ⟨fun _ => hnumeric, fun _ => halpha⟩

/-- A reading either cuts off a slice, behind some blanks, or is made for ever. -/
theorem slice_or_stops {before rest : List Char} (htext : before ++ rest = text)
    (hparted : Parted before rest) :
    (∃ (w : Slice text) (item : Item),
      Scanner.next ⟨before.length, rest⟩ = (item.map .token, ⟨w.stop, w.after⟩) ∧
        Blanks text before.length w.start ∧ w.ReadAs item ∧ Parted (w.before ++ w.chars) w.after) ∨
      (Scanner.next ⟨before.length, rest⟩).2.next = Scanner.next ⟨before.length, rest⟩ ∧
        Stops text before.length fun _ => (Scanner.next ⟨before.length, rest⟩).1 := by
  have hcut := Scanner.cut_next ⟨before.length, rest⟩
  generalize Scanner.next ⟨before.length, rest⟩ = result at hcut
  obtain ⟨reading, s'⟩ := result
  simp only at hcut
  cases hcut with
  | @number blanks run after c hrest hblanks hc hrun hlongest =>
    left
    obtain rfl : rest = blanks ++ c :: run ++ after := hrest
    have hnumeric : TokenStream.isNumeric c = true := by rw [TokenStream.isNumeric, hc]; rfl
    refine ⟨behind before blanks c run after htext,
      TokenStream.readNumber (c :: run) (before.length + blanks.length), ?_,
      blanks_behind htext hblanks, ?_, ?_⟩
    · rw [stop_behind]
      rfl
    · rw [← start_behind htext]
      refine readAs_number (isRun_behind htext hblanks ?_ ?_ hnumeric hrun hlongest) ?_
      · exact fun b => TokenStream.isNumeric_of_isBlank
      · exact fun b hb d hd => (hparted b hb d hd).1
      · rintro d ⟨⟩
        exact hc
    · exact parted_behind_number (List.cons_ne_nil c run) (List.forall_mem_cons.2 ⟨hnumeric, hrun⟩)
        hlongest
  | @word blanks run after c hrest hblanks hc hrun hlongest =>
    left
    obtain rfl : rest = blanks ++ c :: run ++ after := hrest
    refine ⟨behind before blanks c run after htext,
      .ok ⟨.ofWord (c :: run), before.length + blanks.length⟩, ?_,
      blanks_behind htext hblanks, ?_, ?_⟩
    · rw [stop_behind]
      rfl
    · rw [← start_behind htext]
      refine readAs_word (isRun_behind htext hblanks ?_ ?_ hc hrun hlongest)
      · exact fun b => TokenStream.isAlpha_of_isBlank
      · exact fun b hb d hd => (hparted b hb d hd).2
    · exact parted_behind_word (List.cons_ne_nil c run) (List.forall_mem_cons.2 ⟨hc, hrun⟩) hlongest
  | @symbol blanks after c lexeme hrest hblanks hc =>
    left
    obtain rfl : rest = blanks ++ [c] ++ after := by rw [List.append_assoc]; exact hrest
    refine ⟨behind before blanks c [] after htext, .ok ⟨lexeme, before.length + blanks.length⟩, ?_,
      blanks_behind htext hblanks, ?_, ?_⟩
    · rw [stop_behind]
      rfl
    · rw [← start_behind htext]
      exact readAs_symbol rfl hc
    · exact parted_behind_symbol hc
  | endOfInput hblanks =>
    right
    have hlength : before.length + rest.length = text.length := by
      rw [← htext, List.length_append]
    refine ⟨rfl, .endOfInput (fun _ => by rw [hlength]) ?_⟩
    rw [← hlength]
    have hnil : before ++ (rest ++ []) = text := by rw [List.append_nil, htext]
    exact blanks_of_append hnil hblanks
  | @unknown blanks after c hrest hblanks hc =>
    right
    obtain rfl : rest = blanks ++ c :: after := hrest
    refine ⟨Scanner.next_of_startsNothing hc _ _, .unknown (fun _ => rfl)
      (blanks_of_append htext hblanks) ?_ hc.1 hc.2.1 hc.2.2.1 (ofSymbol?_eq_none hc.2.2.2)⟩
    rw [← htext, ← List.append_assoc, ← List.length_append, List.getElem?_append_right (Nat.le_refl _),
      Nat.sub_self]
    rfl

/-! ## All slices -/

/-- What is left of a text is read as slices that follow one another, and then the reading stops. -/
theorem exists_slices {before rest : List Char} (htext : before ++ rest = text)
    (hparted : Parted before rest) :
    ∃ (slices : List (Slice text)) (last : Nat), slices.length ≤ rest.length ∧
      Follow before.length slices last ∧
      (∀ i (h : i < slices.length), ∃ item,
        (Scanner.stream ⟨before.length, rest⟩).reading i = item.map .token ∧ slices[i].ReadAs item) ∧
      Stops text last fun i => (Scanner.stream ⟨before.length, rest⟩).reading (slices.length + i) := by
  -- every slice takes a character at least
  induction hn : rest.length using Nat.strong_induction_on generalizing before rest with
  | _ n ih =>
    subst hn
    rcases slice_or_stops htext hparted with
      ⟨w, item, hnext, hblanks, hitem, hparted'⟩ | ⟨hstays, hstops⟩
    · have hstop : (w.before ++ w.chars).length = w.stop := List.length_append
      have hlength : before.length + rest.length = w.stop + w.after.length := by
        rw [← hstop, ← List.length_append, ← List.length_append, htext, w.text_eq]
      have hlt := w.start_lt_stop
      have hle := hblanks.1
      obtain ⟨slices, last, hslices, hfollow, hread, hstops⟩ :=
        ih w.after.length (by omega) w.text_eq hparted' rfl
      rw [hstop] at hfollow hread hstops
      have hshift : ∀ i, (Scanner.stream ⟨before.length, rest⟩).reading (i + 1) =
          (Scanner.stream ⟨w.stop, w.after⟩).reading i := by
        intro i
        rw [← TokenStream.reading_next, Scanner.next_stream, hnext]
      refine ⟨w :: slices, last, ?_, .cons hblanks hfollow, fun i hi => ?_, ?_⟩
      · rw [List.length_cons]
        omega
      · cases i with
        | zero => exact ⟨item, by rw [Scanner.reading_stream]; exact congrArg Prod.fst hnext, hitem⟩
        | succ i =>
          rw [hshift]
          exact hread i (Nat.lt_of_succ_lt_succ hi)
      · simp only [List.length_cons, Nat.add_right_comm _ 1, hshift]
        exact hstops
    · refine ⟨[], before.length, Nat.zero_le _, .nil _, fun i hi => absurd hi (Nat.not_lt_zero i), ?_⟩
      simp only [Scanner.reading_stream, Scanner.next_after hstays]
      exact hstops

end Slice

/-! ## The readings of a reader -/

/-- The reader after some readings. -/
def Reader.after (r : Reader) : Nat → Reader
  | 0 => r
  | n + 1 => r.next.2.after n

theorem Reader.next_after (r : Reader) (i : Nat) : (r.after i).next.1 = r.stream.reading i := by
  induction i generalizing r with
  | zero => exact r.stream.next_fst
  | succ i ih => exact (ih r.next.2).trans (r.stream.reading_next i)

/-- The readings of a text cover it. They are slices of the text, not more than it has characters, that
follow one another with only blanks between them, each read as what it is: the longest run of digits and
points that starts with a digit, the longest run of letters, or a single symbol. Then the end of the
text is read for ever, with only blanks in front of it, or a character that is no blank and starts no
token. -/
theorem readings_cover (text : String) :
    ∃ (slices : List (Slice text.toList)) (last : Nat), slices.length ≤ text.length ∧
      Slice.Follow 0 slices last ∧
      (∀ i (h : i < slices.length), ∃ item,
        ((Reader.ofString text).after i).next.1 = item.map .token ∧ slices[i].ReadAs item) ∧
      Slice.Stops text.toList last fun i =>
        ((Reader.ofString text).after (slices.length + i)).next.1 := by
  obtain ⟨slices, last, hlength, hfollow, hread, hstops⟩ :=
    @Slice.exists_slices text.toList [] _ (List.nil_append _) fun c hc => nomatch hc
  simp only [Reader.next_after]
  rw [String.length_toList] at hlength
  exact ⟨slices, last, hlength, hfollow, hread, hstops⟩

end DeskCalculator
