import DeskCalculator.Proofs.Writing

/-!
# What erasing takes back

A symbol that a key wrote is erased as a whole, and nothing of the line in front of it is: a whole word
that ends where the symbol does begins in the symbol (`suffix_append_symbol`), for the symbols that end
like one stand behind no letter. So as many erasures as keys leave the line as it was, but for the blanks
at its end (`typed_append_delete`).
-/

namespace DeskCalculator

namespace Text

theorem trimEnd_append {cs : List Char} (hne : cs ≠ []) (h : ∀ c ∈ cs, isBlank c = false)
    (front : List Char) : trimEnd (front ++ cs) = front ++ cs := by
  have hlast := h _ (List.getLast_mem hne)
  rw [← List.dropLast_append_getLast hne, ← List.append_assoc]
  exact trimEnd_concat _ hlast

end Text

namespace Line

/-! ## Whole words -/

/-- Only letters and digits stand in front of the last character of a whole word. -/
theorem isAlphanum_of_mem_wholeWords {w : List Char} (h : w ∈ wholeWords) :
    ∀ c ∈ w.dropLast, c.isAlphanum = true := by
  have hall : ∀ w ∈ wholeWords, w.dropLast.all Char.isAlphanum = true := by decide +kernel
  exact List.all_eq_true.1 (hall w h)

/-- A symbol that is not set apart does not end like a whole word. -/
theorem getLast?_ne_of_mem_wholeWords {w : List Char} (h : w ∈ wholeWords) {k : Key}
    (hk : k.isWord = false) : w.getLast? ≠ k.symbol.getLast? := by
  have hall : ∀ k ∈ Key.all, k.isWord = false →
      ∀ w ∈ wholeWords, w.getLast? ≠ k.symbol.getLast? := by decide +kernel
  exact hall k k.mem_all hk w h

theorem lastLength_symbol {k : Key} (h : k.writes = true) :
    lastLength k.symbol = k.symbol.length := by
  have hall : ∀ k ∈ Key.all, k.writes = true → lastLength k.symbol = k.symbol.length := by
    decide +kernel
  exact hall k k.mem_all h

/-! ## The symbol of a key -/

variable {line front tail : List Char} {k : Key}

/-- A whole word that ends where the symbol of a key does begins in the symbol. -/
theorem suffix_append_symbol (h : k.writes = true) (hwritten : Written line k front tail)
    {w : List Char} (hw : w ∈ wholeWords) : w <:+ front ++ k.symbol ↔ w <:+ k.symbol := by
  refine ⟨fun hsuffix => ?_, fun hsuffix => hsuffix.trans (List.suffix_append front k.symbol)⟩
  rcases List.suffix_or_suffix_of_suffix hsuffix (List.suffix_append front k.symbol) with
    hinside | ⟨u, rfl⟩
  · exact hinside
  -- otherwise some characters `u` in front of the symbol would be in the word
  have hne := Key.symbol_ne_nil h
  cases hword : k.isWord with
  | false =>
    exact absurd (List.getLast?_append_of_ne_nil u hne) (getLast?_ne_of_mem_wholeWords hw hword)
  | true =>
    rcases List.eq_nil_or_concat' u with rfl | ⟨u, c, rfl⟩
    · exact List.suffix_refl _
    obtain ⟨v, hv⟩ := hsuffix
    have hfront : v ++ (u ++ [c]) = front := by
      rw [← List.append_assoc] at hv
      exact List.append_cancel_right hv
    have hapart := hwritten.apart hword c (by
      rw [← hfront, ← List.append_assoc, List.getLast?_concat]
      rfl)
    have hletter := isAlphanum_of_mem_wholeWords hw c (by
      rw [List.dropLast_append_of_ne_nil hne]
      simp)
    rw [hapart] at hletter
    cases hletter

theorem lastLength_append_symbol (h : k.writes = true) (hwritten : Written line k front tail) :
    lastLength (front ++ k.symbol) = k.symbol.length := by
  have hwords : wholeWords.filter (fun w => w.isSuffixOf (front ++ k.symbol)) =
      wholeWords.filter fun w => w.isSuffixOf k.symbol := by
    refine List.filter_congr fun w hw => ?_
    rw [Bool.eq_iff_iff, List.isSuffixOf_iff_suffix, List.isSuffixOf_iff_suffix]
    exact suffix_append_symbol h hwritten hw
  rw [← lastLength_symbol h, lastLength, hwords, lastLength]

/-! ## Erasing -/

/-- Blanks at the end of a line make no difference to what is erased. -/
theorem erase_congr {line line' : List Char} (h : Text.trimEnd line = Text.trimEnd line') :
    erase line = erase line' := by
  rw [erase, erase, h]

/-- The symbol of a key is what is erased. -/
theorem erase_edit (h : k.writes = true) (line : List Char) :
    erase (edit k line) = Text.trimEnd line := by
  obtain ⟨front, tail, hwritten⟩ := exists_written h line
  have hkept : Text.trimEnd (edit k line) = front ++ k.symbol := by
    rw [hwritten.edit_eq, Text.trimEnd_append_of_blank _ hwritten.tail_blank,
      Text.trimEnd_append (Key.symbol_ne_nil h) Key.isBlank_of_mem_symbol]
  rw [erase, hkept, lastLength_append_symbol h hwritten, List.length_append, Nat.add_sub_cancel,
    List.take_left, hwritten.trimEnd_front]

/-- As many erasures as keys take back what the keys wrote. -/
theorem typed_append_delete (line : List Char) {keys : List Key} (hne : keys ≠ [])
    (hkeys : ∀ k ∈ keys, k.writes = true) :
    typed line (keys ++ List.replicate keys.length .delete) = Text.trimEnd line := by
  induction keys generalizing line with
  | nil => exact absurd rfl hne
  | cons k keys ih =>
    obtain ⟨hk, hkeys⟩ := List.forall_mem_cons.1 hkeys
    -- the keys behind the first have been taken back before the last erasure
    have hrest : Text.trimEnd (typed (edit k line) (keys ++ List.replicate keys.length .delete)) =
        Text.trimEnd (edit k line) := by
      cases keys with
      | nil => rfl
      | cons k' keys => rw [ih _ (List.cons_ne_nil k' keys) hkeys, Text.trimEnd_trimEnd]
    rw [List.cons_append, typed_cons, List.length_cons, List.replicate_succ', ← List.append_assoc,
      typed_append, typed_cons]
    exact (erase_congr hrest).trans (erase_edit hk line)

end Line

namespace Desk

/-- After some keys that write, as many times the erasing key leaves the line as it was, but for the
blanks at its end, and everything else but the focus. -/
theorem run_press_delete (d : Desk) {keys : List Key} (hne : keys ≠ [])
    (hkeys : ∀ k ∈ keys, k.writes = true) :
    d.run (keys.map .press ++ List.replicate keys.length (.press .delete)) =
      { d with line := String.ofList (Text.trimEnd d.line.toList), focus := true } := by
  have hevents : keys.map Event.press ++ List.replicate keys.length (.press .delete) =
      (keys ++ List.replicate keys.length Key.delete).map Event.press := by
    rw [List.map_append, List.map_replicate]
  rw [hevents, run_press d (List.append_ne_nil_of_left_ne_nil hne _),
    Line.typed_append_delete _ hne hkeys]
  intro k hk
  rcases List.mem_append.1 hk with hk | hk
  · exact .inl (hkeys k hk)
  · exact .inr (List.eq_of_mem_replicate hk)

/-- A line that ends with letters that a name of the catalogue starts with, and words behind all that
they may stand behind. -/
theorem run_press_delete_behind_letters :
    ({ line := "arc\u00a0", history := [⟨"1", "1"⟩], focus := false } : Desk).run
        ([.call .sin, .constant .pi, .digit 2, .call .cos, .operator (.product .power),
          .constant .euler, .rightParen, .leftParen, .point].map .press ++
            List.replicate 9 (.press .delete)) =
      { line := "arc", history := [⟨"1", "1"⟩], focus := true } :=
  run_press_delete _ (List.cons_ne_nil _ _) (by decide)

end Desk

end DeskCalculator
