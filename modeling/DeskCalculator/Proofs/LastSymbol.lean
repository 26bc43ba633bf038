import DeskCalculator.Proofs.Erasing
import Mathlib.Data.List.MinMax

/-!
# Erasing the last symbol

Of any line, whatever its characters, erasing takes the longest whole word at its end, or one character
where there is none (`exists_lastSymbol`), and the blanks around that. So a line that is not empty gets
shorter, and is empty after as many erasures as it has characters (`handle_delete`). The bytes of the line
are cut at the ends of characters only, so that a line can be erased in place (`eraseBytes?_eq`).
-/

namespace DeskCalculator

/-! ## Texts as bytes -/

namespace Text

/-- How many bytes some characters have. -/
def byteSize (cs : List Char) : Nat :=
  (String.ofList cs).utf8ByteSize

/-- The text cut off behind some of its bytes. There is none if that place is inside a character; a text
that has not more bytes stays as it is. -/
def truncate? (text : String) (size : Nat) : Option String :=
  if text.utf8ByteSize ≤ size then some text else String.fromUTF8? (text.toByteArray.extract 0 size)

/-- A text may be cut off at the end of a part of it. -/
theorem truncate?_append (front rest : String) :
    truncate? (front ++ rest) front.utf8ByteSize = some front := by
  rw [truncate?]
  split
  · next hsize =>
    rw [String.utf8ByteSize_append] at hsize
    obtain rfl : rest = "" := String.utf8ByteSize_eq_zero_iff.1 (by omega)
    rw [String.append_empty]
  · rw [String.toByteArray_append, ← String.size_toByteArray, ByteArray.extract_append_eq_left rfl,
      String.fromUTF8?, dif_pos front.isValidUTF8]
    rfl

theorem truncate?_trimmedEnd (text : String) :
    truncate? text (trimmedEnd text).utf8ByteSize = some (trimmedEnd text) := by
  obtain ⟨blanks, -, hsplit⟩ := exists_blanks text.toList
  have htext : text = trimmedEnd text ++ String.ofList blanks := by
    rw [trimmedEnd, ← String.ofList_append, ← hsplit, String.ofList_toList]
  have hcut := truncate?_append (trimmedEnd text) (String.ofList blanks)
  rwa [← htext] at hcut

end Text

namespace Line

/-! ## The last symbol of a line -/

/-- What is erased as a whole: the name of a function with the parenthesis behind it, or the constant of
two letters. -/
inductive IsWhole : List Char → Prop
  | call (f : MathFunction) : IsWhole (f.name.toList ++ ['('])
  | pi : IsWhole ['p', 'i']

/-- What is erased at the end of a line. -/
inductive LastSymbol (line : List Char) : List Char → Prop
  /-- The longest of the whole words that stand there. -/
  | whole {word : List Char} (hword : IsWhole word) (hsuffix : word <:+ line)
      (hlongest : ∀ w, IsWhole w → w <:+ line → w.length ≤ word.length) : LastSymbol line word
  /-- The last character, where no whole word stands. -/
  | character {c : Char} (hsuffix : [c] <:+ line) (hnone : ∀ w, IsWhole w → ¬ w <:+ line) :
      LastSymbol line [c]

theorem LastSymbol.suffix {line removed : List Char} (h : LastSymbol line removed) :
    removed <:+ line := by
  cases h with
  | whole _ hsuffix _ => exact hsuffix
  | character hsuffix _ => exact hsuffix

theorem mem_wholeWords {w : List Char} : w ∈ wholeWords ↔ IsWhole w := by
  rw [wholeWords, List.mem_append, List.mem_map, List.mem_singleton]
  constructor
  · rintro (⟨f, -, rfl⟩ | rfl)
    · exact .call f
    · exact .pi
  · intro h
    cases h with
    | call f => exact .inl ⟨f, f.mem_all, rfl⟩
    | pi => exact .inr rfl

/-- A whole word has two characters at least, each of one byte. -/
theorem IsWhole.length {w : List Char} (h : IsWhole w) :
    2 ≤ w.length ∧ Text.byteSize w = w.length := by
  have hall : ∀ w ∈ wholeWords, 2 ≤ w.length ∧ Text.byteSize w = w.length := by
    decide +kernel
  exact hall w (mem_wholeWords.2 h)

/-- The longest whole word at the end of a line. -/
def longestWord? (line : List Char) : Option (List Char) :=
  (wholeWords.filter fun word => word.isSuffixOf line).argmax Text.byteSize

theorem mem_filter_isSuffixOf {line w : List Char} :
    w ∈ wholeWords.filter (fun word => word.isSuffixOf line) ↔ IsWhole w ∧ w <:+ line := by
  rw [List.mem_filter, mem_wholeWords, List.isSuffixOf_iff_suffix]

/-- The greatest of a number and of some lengths is one of them. -/
theorem foldl_max_length {words : List (List Char)} {n m : Nat} (hle : ∀ w ∈ words, w.length ≤ m)
    (hn : n ≤ m) (hmem : n = m ∨ ∃ w ∈ words, w.length = m) :
    words.foldl (fun n word => max n word.length) n = m := by
  induction words generalizing n with
  | nil => simpa using hmem
  | cons w words ih =>
    obtain ⟨hw, hwords⟩ := List.forall_mem_cons.1 hle
    refine ih hwords (Nat.max_le.2 ⟨hn, hw⟩) ?_
    rcases hmem with rfl | ⟨w', hw', rfl⟩
    · exact .inl (Nat.max_eq_left hw)
    · rcases List.mem_cons.1 hw' with rfl | hw'
      · exact .inl (Nat.max_eq_right hn)
      · exact .inr ⟨w', hw', rfl⟩

/-- The last symbol of a line is the longest whole word or, where there is none, the last character; it
has the length that is erased. -/
theorem lastSymbol_cases {line : List Char} (h : line ≠ []) :
    (∃ word, longestWord? line = some word ∧ LastSymbol line word ∧ lastLength line = word.length) ∨
      longestWord? line = none ∧ LastSymbol line [line.getLast h] ∧ lastLength line = 1 := by
  rcases hword : longestWord? line with _ | word
  · right
    have hempty := List.argmax_eq_none.1 hword
    have hnone : ∀ w, IsWhole w → ¬ w <:+ line := fun w hw hsuffix =>
      List.eq_nil_iff_forall_not_mem.1 hempty w (mem_filter_isSuffixOf.2 ⟨hw, hsuffix⟩)
    refine ⟨rfl, .character ⟨line.dropLast, List.dropLast_append_getLast h⟩ hnone, ?_⟩
    rw [lastLength, hempty]
    rfl
  · left
    obtain ⟨hwhole, hsuffix⟩ := mem_filter_isSuffixOf.1 (List.argmax_mem hword)
    have hlongest : ∀ w, IsWhole w → w <:+ line → w.length ≤ word.length := by
      intro w hw hwsuffix
      rw [← hw.length.2, ← hwhole.length.2]
      exact List.le_of_mem_argmax (mem_filter_isSuffixOf.2 ⟨hw, hwsuffix⟩) hword
    have htwo := hwhole.length.1
    refine ⟨word, rfl, .whole hwhole hsuffix hlongest, foldl_max_length (fun w hw => ?_) (by omega)
      (.inr ⟨word, mem_filter_isSuffixOf.2 ⟨hwhole, hsuffix⟩, rfl⟩)⟩
    obtain ⟨hw, hwsuffix⟩ := mem_filter_isSuffixOf.1 hw
    exact hlongest w hw hwsuffix

/-- How many bytes the last symbol of a line has. -/
def lastSize (line : List Char) : Nat :=
  match longestWord? line with
  | some word => Text.byteSize word
  | none => Text.byteSize line.getLast?.toList

/-- A line that is not empty ends with its last symbol. -/
theorem exists_lastSymbol {line : List Char} (h : line ≠ []) :
    ∃ front removed, line = front ++ removed ∧ LastSymbol line removed ∧
      lastLength line = removed.length ∧ lastSize line = Text.byteSize removed := by
  rcases lastSymbol_cases h with ⟨word, hword, hlast, hlength⟩ | ⟨hword, hlast, hlength⟩
  · obtain ⟨front, hfront⟩ := hlast.suffix
    exact ⟨front, word, hfront.symm, hlast, hlength, by rw [lastSize, hword]⟩
  · refine ⟨line.dropLast, _, (List.dropLast_append_getLast h).symm, hlast, hlength, ?_⟩
    rw [lastSize, hword, List.getLast?_eq_some_getLast h]
    rfl

/-- What is erased at the end of a line has one length only. -/
theorem LastSymbol.length_eq {line removed removed' : List Char} (h : LastSymbol line removed)
    (h' : LastSymbol line removed') : removed.length = removed'.length := by
  cases h with
  | whole hword hsuffix hlongest =>
    cases h' with
    | whole hword' hsuffix' hlongest' =>
      exact Nat.le_antisymm (hlongest' _ hword hsuffix) (hlongest _ hword' hsuffix')
    | character _ hnone => exact absurd hsuffix (hnone _ hword)
  | character _ hnone =>
    cases h' with
    | whole hword' hsuffix' _ => exact absurd hsuffix' (hnone _ hword')
    | character _ _ => rfl

theorem LastSymbol.ne_nil {line removed : List Char} (h : LastSymbol line removed) : removed ≠ [] := by
  cases h with
  | whole hword _ _ =>
    rintro rfl
    exact absurd hword.length.1 (by decide)
  | character _ _ => exact List.cons_ne_nil _ _

/-! ## Erasing -/

/-- Erasing takes the last symbol, and the blanks on its two sides. -/
theorem erase_of_lastSymbol {line front removed : List Char}
    (hline : Text.trimEnd line = front ++ removed) (hlast : LastSymbol (Text.trimEnd line) removed) :
    erase line = Text.trimEnd front := by
  have hne : Text.trimEnd line ≠ [] := hline ▸ List.append_ne_nil_of_right_ne_nil front hlast.ne_nil
  obtain ⟨-, removed', -, hlast', hlength, -⟩ := exists_lastSymbol hne
  rw [erase, hlength, hlast'.length_eq hlast, hline, List.length_append, Nat.add_sub_cancel,
    List.take_left]

theorem erase_of_trimEnd_eq_nil {line : List Char} (h : Text.trimEnd line = []) : erase line = [] := by
  rw [erase, h]
  rfl

/-- What is left is the beginning of the line. -/
theorem erase_prefix (line : List Char) : erase line <+: line :=
  (Text.trimEnd_prefix _).trans ((List.take_prefix _ _).trans (Text.trimEnd_prefix line))

theorem isBlank_getLast?_erase (line : List Char) :
    ∀ c ∈ (erase line).getLast?, Text.isBlank c = false := by
  intro c hc
  obtain ⟨hne, rfl⟩ := List.mem_getLast?_eq_getLast hc
  exact Text.isBlank_getLast_trimEnd hne

theorem length_erase_lt {line : List Char} (h : line ≠ []) : (erase line).length < line.length := by
  have hkept := (Text.trimEnd_prefix line).length_le
  by_cases hnil : Text.trimEnd line = []
  · rw [erase_of_trimEnd_eq_nil hnil]
    exact List.length_pos_of_ne_nil h
  · obtain ⟨front, removed, hsplit, hlast, -⟩ := exists_lastSymbol hnil
    have hfront := (Text.trimEnd_prefix front).length_le
    have hremoved := List.length_pos_of_ne_nil hlast.ne_nil
    rw [hsplit, List.length_append] at hkept
    rw [erase_of_lastSymbol hsplit hlast]
    omega

/-- As many erasures as a line has characters leave nothing of it. -/
theorem typed_replicate_delete {line : List Char} {n : Nat} (h : line.length ≤ n) :
    typed line (List.replicate n .delete) = [] := by
  induction n generalizing line with
  | zero => exact List.eq_nil_of_length_eq_zero (Nat.le_zero.1 h)
  | succ n ih =>
    rw [List.replicate_succ, typed_cons]
    refine ih ?_
    by_cases hnil : line = []
    · rw [hnil]
      exact Nat.zero_le n
    · exact Nat.le_of_lt_succ ((length_erase_lt hnil).trans_le h)

/-! ## Erasing in place -/

/-- A line cut off in place, by its bytes: behind the last character that is no blank, in front of the last
symbol, and behind what is no blank again. There is no such line if one of the places is inside a character
or in front of the line. -/
def eraseBytes? (line : String) : Option String := do
  let kept ← Text.truncate? line (trimmedEnd line).utf8ByteSize
  let size := lastSize kept.toList
  let rest ← if size ≤ kept.utf8ByteSize then Text.truncate? kept (kept.utf8ByteSize - size) else none
  Text.truncate? rest (trimmedEnd rest).utf8ByteSize

/-- All the places are at the ends of characters. -/
theorem eraseBytes?_eq (line : String) : eraseBytes? line = some (String.ofList (erase line.toList)) := by
  have hkept : (trimmedEnd line).toList = Text.trimEnd line.toList := String.toList_ofList
  simp only [eraseBytes?, Text.truncate?_trimmedEnd, hkept, Option.bind_eq_bind, Option.bind_some]
  by_cases hnil : Text.trimEnd line.toList = []
  · rw [erase_of_trimEnd_eq_nil hnil, trimmedEnd, hnil]
    decide +kernel
  · obtain ⟨front, removed, hsplit, hlast, -, hsize⟩ := exists_lastSymbol hnil
    have htexts : trimmedEnd line = String.ofList front ++ String.ofList removed := by
      rw [trimmedEnd, hsplit, String.ofList_append]
    have hbytes : (trimmedEnd line).utf8ByteSize =
        (String.ofList front).utf8ByteSize + Text.byteSize removed := by
      rw [htexts, String.utf8ByteSize_append, Text.byteSize]
    rw [hsize, if_pos (by omega), hbytes, Nat.add_sub_cancel, htexts, Text.truncate?_append,
      Option.bind_some, erase_of_lastSymbol hsplit hlast, trimmedEnd, String.toList_ofList]

end Line

namespace Desk

/-- Erasing leaves a beginning of the line that ends with no blank and is shorter than the line unless this
is empty; in place, no character is cut. What is taken away of a line with a character that is no blank is
its last symbol and the blanks on the two sides. As many erasures as the line has characters empty it. -/
theorem handle_delete (d : Desk) :
    let line := d.line.toList
    let left := (d.handle (.press .delete)).line.toList
    left <+: line ∧ (∀ c ∈ left.getLast?, Text.isBlank c = false) ∧
      (line ≠ [] → left.length < line.length) ∧
      Line.eraseBytes? d.line = some (d.handle (.press .delete)).line ∧
      (Text.trimEnd line ≠ [] → ∃ front removed, Text.trimEnd line = front ++ removed ∧
        Line.LastSymbol (Text.trimEnd line) removed ∧ left = Text.trimEnd front) ∧
      (d.run (List.replicate line.length (.press .delete))).line = "" := by
  intro line left
  have hline : (d.handle (.press .delete)).line = String.ofList (Line.erase line) := rfl
  have hleft : left = Line.erase line := String.toList_ofList
  rw [hleft, hline]
  refine ⟨Line.erase_prefix line, Line.isBlank_getLast?_erase line, Line.length_erase_lt,
    Line.eraseBytes?_eq d.line, fun hne => ?_, ?_⟩
  · obtain ⟨front, removed, hsplit, hlast, -⟩ := Line.exists_lastSymbol hne
    exact ⟨front, removed, hsplit, hlast, Line.erase_of_lastSymbol hsplit hlast⟩
  · by_cases hempty : line = []
    · rw [hempty]
      exact String.toList_eq_nil_iff.1 hempty
    · have hne : List.replicate line.length Key.delete ≠ [] := by
        rwa [Ne, List.replicate_eq_nil_iff, List.length_eq_zero_iff]
      rw [← List.map_replicate, run_press d hne fun k hk => .inr (List.eq_of_mem_replicate hk),
        Line.typed_replicate_delete (Nat.le_refl _)]

end Desk

end DeskCalculator
