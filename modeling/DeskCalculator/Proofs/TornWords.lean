import DeskCalculator.Proofs.LastSymbol
import DeskCalculator.Proofs.Composition
import DeskCalculator.Proofs.Spacing

/-!
# Words that erasing tears

Erasing looks for whole words at the end of a line by their letters, but a line is read by its longest
words. Where letters stand in front of the whole word, the word that is read begins with them, and
erasing leaves the letters as a word that was not there; everywhere else it takes whole tokens
(`handle_delete_tokens`). A key never writes a word behind a letter, so this happens to lines only that
have been typed letter by letter.
-/

namespace DeskCalculator

/-! ## Tokens of a divided text -/

namespace TokenStream

/-- Blanks at the end of a text make no difference to its tokens. -/
theorem tokens_trimEnd (cs : List Char) :
    (scan 0 (Text.trimEnd cs)).tokens = (scan 0 cs).tokens ∧
      ((scan 0 (Text.trimEnd cs)).Readable ↔ (scan 0 cs).Readable) := by
  obtain ⟨blanks, hblanks, hsplit⟩ := Text.exists_blanks cs
  have hscan := scan_append_blanks hblanks 0 (Text.trimEnd cs)
  rw [← hsplit] at hscan
  rw [hscan]
  rcases scan 0 (Text.trimEnd cs) with ⟨items, e | n⟩
  · exact ⟨rfl, Iff.rfl⟩
  · rw [append, List.append_nil]
    exact ⟨rfl, Iff.rfl⟩

/-- The beginning of a readable text is readable, unless a number or a word goes over its end. -/
theorem exists_tokens_of_parted {cs rest : List Char} (hparted : Slice.Parted cs rest)
    (h : (scan 0 (cs ++ rest)).Readable) :
    ∃ (ts : List Token) (n : Nat), scan 0 cs = ⟨ts.map .ok, .ok n⟩ := by
  rw [scan_append_of_between (between_of_parted hparted)] at h
  rcases hscan : scan 0 cs with ⟨items, e | n⟩
  · rw [hscan] at h
    cases h.2
  · rw [hscan] at h
    have hitems : ∀ item ∈ items, item.isOk = true := fun item hitem =>
      h.1 item (List.mem_append_left _ hitem)
    exact ⟨_, n, by rw [← map_ok_filterMap_toOption hitems]⟩

/-- The tokens of a text are those of its two parts, unless a number or a word goes over the place. -/
theorem tokens_append_of_parted {cs rest : List Char} {ts : List Token} {n : Nat} {us : List Lexeme}
    (hparted : Slice.Parted cs rest) (hcs : scan 0 cs = ⟨ts.map .ok, .ok n⟩) (hrest : ReadsAs rest us) :
    (scan 0 (cs ++ rest)).Readable ∧
      ∃ ts', (scan 0 (cs ++ rest)).tokens = ts ++ ts' ∧ ts'.map Token.lexeme = us := by
  obtain ⟨ts', n', hscan, hts'⟩ := hrest cs.length
  have hwhole : scan 0 (cs ++ rest) = ⟨(ts ++ ts').map .ok, .ok n'⟩ := by
    rw [scan_append_of_between (between_of_parted hparted), hcs, hscan, List.map_append]
    rfl
  rw [hwhole]
  exact ⟨readable_of_items_eq rfl rfl, ts', tokens_of_items_eq rfl, hts'⟩

end TokenStream

/-! ## Whole words as tokens -/

/-- No word is read like a beginning of it that is two letters shorter or more. -/
theorem Lexeme.ofWord_ne_ofWord_append {letters name : List Char} (hne : letters ≠ [])
    (hname : 2 ≤ name.length) : Lexeme.ofWord letters ≠ Lexeme.ofWord (letters ++ name) := by
  have hpos := List.length_pos_of_ne_nil hne
  have hlower : ∀ word : List Char, word.length ≤ 2 → (letters ++ name).map Char.toLower ≠ word := by
    rintro _ hword rfl
    rw [List.length_map, List.length_append] at hword
    omega
  have hwhole : ofWord (letters ++ name) = .name (String.ofList (letters ++ name)) := by
    rw [ofWord, if_neg (hlower ['p', 'i'] (by decide)), if_neg (hlower ['e'] (by decide))]
  rw [hwhole, ofWord]
  split
  · intro h
    cases h
  · split
    · intro h
      cases h
    · intro h
      rw [Lexeme.name.injEq, String.ofList_inj] at h
      have hlength := congrArg List.length h
      rw [List.length_append] at hlength
      omega

namespace Line

open TokenStream (ReadsAs)

/-- A whole word is a word of two letters at least, and a parenthesis behind it if it is a call. -/
theorem IsWhole.letters {word : List Char} (h : IsWhole word) :
    2 ≤ (word.takeWhile Char.isAlpha).length ∧
      (word.dropWhile Char.isAlpha = [] ∨ word.dropWhile Char.isAlpha = ['(']) := by
  have hall : ∀ w ∈ wholeWords, 2 ≤ (w.takeWhile Char.isAlpha).length ∧
      (w.dropWhile Char.isAlpha = [] ∨ w.dropWhile Char.isAlpha = ['(']) := by decide +kernel
  exact hall word (mem_wholeWords.2 h)

/-- The lexemes of a whole word that stands behind some letters: the letters are read with it. -/
def wholeLexemes (letters word : List Char) : List Lexeme :=
  .ofWord (letters ++ word.takeWhile Char.isAlpha) ::
    if word.dropWhile Char.isAlpha = [] then [] else [.leftParen]

/-- The letters of a whole word and those in front of it are one run. -/
theorem IsWhole.run {letters word : List Char} (hletters : ∀ c ∈ letters, c.isAlpha = true)
    (h : IsWhole word) : letters ++ word.takeWhile Char.isAlpha ≠ [] ∧
      ∀ c ∈ letters ++ word.takeWhile Char.isAlpha, c.isAlpha = true := by
  have htwo := h.letters.1
  refine ⟨List.append_ne_nil_of_right_ne_nil _ (List.ne_nil_of_length_pos (by omega)), fun c hc => ?_⟩
  rcases List.mem_append.1 hc with hc | hc
  · exact hletters c hc
  · exact List.mem_takeWhile_imp hc

theorem readsAs_wholeLexemes {letters word : List Char} (hletters : ∀ c ∈ letters, c.isAlpha = true)
    (h : IsWhole word) : ReadsAs (letters ++ word) (wholeLexemes letters word) := by
  obtain ⟨hne, hrun⟩ := h.run hletters
  have hword := (TokenStream.oneToken_word hne hrun).readsAs
  have hsplit : letters ++ word =
      letters ++ word.takeWhile Char.isAlpha ++ word.dropWhile Char.isAlpha := by
    rw [List.append_assoc, List.takeWhile_append_dropWhile]
  rw [hsplit, wholeLexemes]
  rcases h.letters.2 with hparen | hparen
  · rw [hparen, List.append_nil, if_pos rfl]
    exact hword
  · have hsymbol : ReadsAs ['('] [.leftParen] := (TokenStream.oneToken_symbol rfl).readsAs
    rw [hparen, if_neg (List.cons_ne_nil _ _)]
    exact hword.append hsymbol (by decide) (by decide)

/-- The lexeme that is left of a word when letters in front of it remain. -/
def tornLexemes (letters : List Char) : List Lexeme :=
  if letters = [] then [] else [.ofWord letters]

theorem readsAs_tornLexemes {letters : List Char} (hletters : ∀ c ∈ letters, c.isAlpha = true) :
    ReadsAs letters (tornLexemes letters) := by
  rw [tornLexemes]
  split
  · next hnil =>
    rw [hnil]
    exact TokenStream.readsAs_nil
  · next hne => exact (TokenStream.oneToken_word hne hletters).readsAs

/-- No word goes on over the place where the letters at the end of some characters begin. -/
theorem parted_rdropWhile (front : List Char) {rest : List Char}
    (h : ∀ d ∈ rest.head?, d.isAlpha = true) : Slice.Parted (front.rdropWhile Char.isAlpha) rest := by
  intro c hc d hd
  obtain ⟨hne, rfl⟩ := List.mem_getLast?_eq_getLast hc
  have hlast := Bool.eq_false_iff.2 (List.rdropWhile_last_not Char.isAlpha front hne)
  refine ⟨fun hnumeric => ?_, fun _ => hlast⟩
  have halpha := h d hd
  rw [Slice.isAlpha_of_isNumeric hnumeric] at halpha
  cases halpha

theorem rtakeWhile_isAlpha_eq_nil {front : List Char} :
    front.rtakeWhile Char.isAlpha = [] ↔ ∀ c ∈ front.getLast?, c.isAlpha = false := by
  rw [List.rtakeWhile_eq_nil_iff]
  constructor
  · intro h c hc
    obtain ⟨hne, rfl⟩ := List.mem_getLast?_eq_getLast hc
    exact Bool.eq_false_iff.2 (h hne)
  · exact fun h hne => Bool.eq_false_iff.1 (h _ (List.getLast?_eq_some_getLast hne))

/-- What is read at the end of a line, and what is read there after an erasure, behind the same tokens. -/
theorem exists_tokens_erase {line front word : List Char}
    (hread : (TokenStream.scan 0 line).Readable) (hline : Text.trimEnd line = front ++ word)
    (hlast : LastSymbol (Text.trimEnd line) word) (hword : IsWhole word) :
    (TokenStream.scan 0 (erase line)).Readable ∧ ∃ ts us vs : List Token,
      (TokenStream.scan 0 line).tokens = ts ++ us ∧
      us.map Token.lexeme = wholeLexemes (front.rtakeWhile Char.isAlpha) word ∧
      (TokenStream.scan 0 (erase line)).tokens = ts ++ vs ∧
      vs.map Token.lexeme = tornLexemes (front.rtakeWhile Char.isAlpha) := by
  have hletters : ∀ c ∈ front.rtakeWhile Char.isAlpha, c.isAlpha = true :=
    fun c => List.mem_rtakeWhile_imp
  have hfront : front.rdropWhile Char.isAlpha ++ front.rtakeWhile Char.isAlpha = front :=
    List.rdropWhile_append_rtakeWhile
  have hhead : ∀ d ∈ (front.rtakeWhile Char.isAlpha ++ word).head?, d.isAlpha = true := by
    obtain ⟨hne, hrun⟩ := hword.run hletters
    intro d hd
    rw [← List.takeWhile_append_dropWhile (p := Char.isAlpha) (l := word), ← List.append_assoc,
      List.head?_append_of_ne_nil _ hne] at hd
    exact hrun d (List.mem_of_mem_head? hd)
  obtain ⟨htokens, hreadable⟩ := TokenStream.tokens_trimEnd line
  rw [hline, ← hfront, List.append_assoc] at htokens hreadable
  -- the same tokens stand in front of the letters before and after
  obtain ⟨ts, n, hts⟩ := TokenStream.exists_tokens_of_parted (parted_rdropWhile front hhead)
    (hreadable.2 hread)
  obtain ⟨-, us, hus, hwhole⟩ := TokenStream.tokens_append_of_parted (parted_rdropWhile front hhead) hts
    (readsAs_wholeLexemes hletters hword)
  obtain ⟨hleft, vs, hvs, htorn⟩ := TokenStream.tokens_append_of_parted
    (parted_rdropWhile front fun d hd => hletters d (List.mem_of_mem_head? hd)) hts
    (readsAs_tornLexemes hletters)
  obtain ⟨htokens', hreadable'⟩ := TokenStream.tokens_trimEnd front
  rw [hfront] at hleft hvs
  rw [erase_of_lastSymbol hline hlast]
  exact ⟨hreadable'.2 hleft, ts, us, vs, htokens.symm.trans hus, hwhole, htokens'.trans hvs, htorn⟩

end Line

namespace Desk

/-- When a whole word is erased of a line that can be read, what is left can be read too, and its tokens are
those in front of the word and of the letters that stand right before it, and one token of these letters if
there are any. So the tokens that are left are a beginning of the old ones just as long as the word stands
behind no letter. -/
theorem handle_delete_tokens {d : Desk} {front word : List Char}
    (hread : (TokenStream.ofString d.line).Readable)
    (hline : Text.trimEnd d.line.toList = front ++ word)
    (hlast : Line.LastSymbol (Text.trimEnd d.line.toList) word) (hword : Line.IsWhole word) :
    let letters := front.rtakeWhile Char.isAlpha
    let tokens := (TokenStream.ofString d.line).tokens
    let left := TokenStream.ofString (d.handle (.press .delete)).line
    left.Readable ∧
      (∃ ts us vs, tokens = ts ++ us ∧ us.map Token.lexeme = Line.wholeLexemes letters word ∧
        left.tokens = ts ++ vs ∧ vs.map Token.lexeme = Line.tornLexemes letters) ∧
      (left.tokens <+: tokens ↔ ∀ c ∈ front.getLast?, c.isAlpha = false) := by
  intro letters tokens left
  have hleft : left = TokenStream.scan 0 (Line.erase d.line.toList) := by
    show TokenStream.scan 0 (String.ofList (Line.erase d.line.toList)).toList = _
    rw [String.toList_ofList]
  obtain ⟨hreadable, ts, us, vs, htokens, hwhole, hvs, htorn⟩ :=
    Line.exists_tokens_erase hread hline hlast hword
  rw [← hleft] at hreadable hvs
  refine ⟨hreadable, ⟨ts, us, vs, htokens, hwhole, hvs, htorn⟩, ?_⟩
  have htokens : tokens = ts ++ us := htokens
  rw [← Line.rtakeWhile_isAlpha_eq_nil, hvs, htokens, List.prefix_append_right_inj]
  constructor
  · intro hprefix
    by_contra hne
    have hlexemes := hprefix.map Token.lexeme
    rw [htorn, hwhole, Line.tornLexemes, if_neg hne, Line.wholeLexemes, List.cons_prefix_cons] at hlexemes
    exact Lexeme.ofWord_ne_ofWord_append hne hword.letters.1 hlexemes.1
  · intro hnil
    rw [Line.tornLexemes, if_pos hnil, List.map_eq_nil_iff] at htorn
    rw [htorn]
    exact List.nil_prefix

/-- A call behind an operator, and the same letters behind a letter. -/
theorem handle_delete_tokens_behind_letter :
    (TokenStream.ofString (({ line := "2*sin( " } : Desk).handle (.press .delete)).line).tokens <+:
      (TokenStream.ofString "2*sin( ").tokens ∧
    ¬ (TokenStream.ofString (({ line := "2*asin( " } : Desk).handle (.press .delete)).line).tokens <+:
      (TokenStream.ofString "2*asin( ").tokens := by
  have hread : ∀ text ∈ ["2*sin( ", "2*asin( "], (TokenStream.ofString text).Readable := by
    decide +kernel
  have hsymbol : ∀ text ∈ ["2*sin( ", "2*asin( "],
      Line.LastSymbol (Text.trimEnd text.toList) "sin(".toList := by
    have hlast : ∀ text ∈ ["2*sin( ", "2*asin( "], "sin(".toList <:+ Text.trimEnd text.toList ∧
        ∀ w ∈ Line.wholeWords, w <:+ Text.trimEnd text.toList → w.length ≤ 4 := by decide +kernel
    intro text htext
    obtain ⟨hsuffix, hlongest⟩ := hlast text htext
    exact .whole (.call .sin) hsuffix fun w hw => hlongest w (Line.mem_wholeWords.2 hw)
  have hwhole := (@handle_delete_tokens { line := "2*sin( " } ['2', '*'] "sin(".toList
    (hread "2*sin( " (by decide)) (by decide +kernel) (hsymbol "2*sin( " (by decide)) (.call .sin)).2.2
  have htorn := (@handle_delete_tokens { line := "2*asin( " } ['2', '*', 'a'] "sin(".toList
    (hread "2*asin( " (by decide)) (by decide +kernel) (hsymbol "2*asin( " (by decide)) (.call .sin)).2.2
  refine ⟨hwhole.2 fun c hc => ?_, fun hprefix => ?_⟩
  · obtain rfl : '*' = c := Option.some.inj hc
    rfl
  · cases htorn.1 hprefix 'a' rfl

/-- The call that is erased begins inside the word that the line is read as. -/
theorem handle_delete_torn :
    let d := run {} [.retype "asin("]
    let left := d.handle (.press .delete)
    Line.LastSymbol d.line.toList "sin(".toList ∧ left.line = "a" ∧
      (TokenStream.ofString d.line).Readable ∧
      (TokenStream.ofString d.line).tokens = [⟨.name "asin", 0⟩, ⟨.leftParen, 4⟩] ∧
      (TokenStream.ofString left.line).tokens = [⟨.name "a", 0⟩] := by
  have hlongest : ∀ w ∈ Line.wholeWords, w <:+ "asin(".toList → w.length ≤ 4 := by decide +kernel
  refine ⟨.whole (.call .sin) (List.suffix_append ['a'] _) fun w hw => ?_, by decide +kernel⟩
  exact hlongest w (Line.mem_wholeWords.2 hw)

end Desk

end DeskCalculator
