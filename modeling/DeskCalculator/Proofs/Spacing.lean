import DeskCalculator.Proofs.Places
import DeskCalculator.Proofs.Transcription
import DeskCalculator.Proofs.Acceptance

/-!
# Blanks between tokens

Blanks may be put into a text wherever no number and no word is torn apart. What stands in front of them
is read as before, and so is what stands behind them, only further on: the readings are those of a
transcription (`scan_insert_blanks`). So the outcome is the same, but for the places in an error
(`evaluate_insert_blanks`).
-/

namespace DeskCalculator

/-- The transcription into a text that has `k` characters more in front of what stood at a place. -/
def Transcription.insertion (i k : Nat) : Transcription where
  place position := if i ≤ position then position + k else position
  spelling name := name
  ofName?_spelling _ := rfl

theorem Lexeme.transcribe_eq_self {r : Transcription} (hspelling : ∀ name, r.spelling name = name)
    (lexeme : Lexeme) : lexeme.transcribe r = lexeme := by
  cases lexeme with
  | name text => exact congrArg Lexeme.name (hspelling text)
  | _ => rfl

namespace TokenStream

/-! ## Places -/

theorem transcribe_readNumber (r : Transcription) (run : List Char) (position : Nat) :
    mapBoth (LexicalError.transcribe r) (Token.transcribe r) (readNumber run position) =
      readNumber run (r.place position) := by
  rw [readNumber, readNumber]
  split <;> rfl

theorem transcribe_token {r : Transcription} (hspelling : ∀ name, r.spelling name = name)
    (lexeme : Lexeme) (position : Nat) :
    Token.transcribe r ⟨lexeme, position⟩ = ⟨lexeme, r.place position⟩ := by
  rw [Token.transcribe, Lexeme.transcribe_eq_self hspelling]

theorem place_add {r : Transcription} {position position' n : Nat}
    (hplace : ∀ j < n, r.place (position + j) = position' + j) {k m : Nat} (h : k + m = n) :
    ∀ j < m, r.place (position + k + j) = position' + k + j := by
  intro j hj
  rw [Nat.add_assoc, hplace (k + j) (by omega), Nat.add_assoc]

/-- A transcription that moves all characters alike reads them where they have come to stand. -/
theorem transcribe_scan_append {r : Transcription} (hspelling : ∀ name, r.spelling name = name)
    (position : Nat) (cs : List Char) (s : TokenStream) : ∀ position',
      (∀ j < cs.length, r.place (position + j) = position' + j) →
        ((scan position cs).append s).transcribe r =
          (scan position' cs).append (s.transcribe r) := by
  fun_induction scan position cs with
  | case1 position =>
    intro position' _
    rw [scan_nil]
    rfl
  | case2 position c cs hblank ih =>
    intro position' hplace
    rw [scan_cons, if_pos hblank]
    exact ih _ (place_add hplace (Nat.add_comm _ _))
  | case3 position c cs hblank hdigit run ih =>
    intro position' hplace
    have hfirst : r.place position = position' := hplace 0 (Nat.succ_pos _)
    have hlength := length_takeWhile_add_dropWhile isNumeric cs
    have hrest := ih _ (place_add hplace (by simp only [run, List.length_cons]; omega))
    rw [scan_cons, if_neg hblank, if_pos hdigit, cons_append]
    simp only
    rw [cons_append, ← hrest, ← hfirst, ← transcribe_readNumber]
    rfl
  | case4 position c cs hblank hdigit halpha run ih =>
    intro position' hplace
    have hfirst : r.place position = position' := hplace 0 (Nat.succ_pos _)
    have hlength := length_takeWhile_add_dropWhile Char.isAlpha cs
    have hrest := ih _ (place_add hplace (by simp only [run, List.length_cons]; omega))
    rw [scan_cons, if_neg hblank, if_neg hdigit, if_pos halpha, cons_append]
    simp only
    rw [cons_append, ← hrest, ← hfirst, ← transcribe_token hspelling]
    rfl
  | case5 position c cs hblank hdigit halpha lexeme hl ih =>
    intro position' hplace
    have hfirst : r.place position = position' := hplace 0 (Nat.succ_pos _)
    have hrest := ih _ (place_add hplace (Nat.add_comm _ _))
    rw [scan_symbol hl, cons_append, cons_append, ← hrest, ← hfirst, ← transcribe_token hspelling]
    rfl
  | case6 position c cs hblank hdigit halpha hl =>
    intro position' hplace
    have hfirst : r.place position = position' := hplace 0 (Nat.succ_pos _)
    rw [scan_cons, if_neg hblank, if_neg hdigit, if_neg halpha, hl, ← hfirst]
    rfl

theorem append_of_stop {s : TokenStream} {n : Nat} (h : ∀ m, s.stop = .ok m → m = n) :
    s.append ⟨[], .ok n⟩ = s := by
  obtain ⟨items, stop⟩ := s
  cases stop with
  | error e => rfl
  | ok m => rw [append, List.append_nil, h m rfl]

/-- A transcription that moves all characters alike, and the end with them, reads the text where it has
come to stand. -/
theorem transcribe_scan {r : Transcription} (hspelling : ∀ name, r.spelling name = name)
    {position position' : Nat} {cs : List Char}
    (hplace : ∀ j ≤ cs.length, r.place (position + j) = position' + j) :
    (scan position cs).transcribe r = scan position' cs := by
  have hend : ∀ position, (scan position cs).append ⟨[], .ok (position + cs.length)⟩ =
      scan position cs :=
    fun position => append_of_stop fun n => stop_scan
  have hmoved := transcribe_scan_append hspelling position cs ⟨[], .ok (position + cs.length)⟩
    position' fun j hj => hplace j (Nat.le_of_lt hj)
  rw [hend, transcribe, transcribe] at hmoved
  rw [← hend position', ← hplace cs.length (Nat.le_refl _)]
  exact hmoved

/-! ## Blanks -/

theorem scan_blanks_append {blanks : List Char} (h : ∀ c ∈ blanks, Text.isBlank c = true)
    (position : Nat) (rest : List Char) :
    scan position (blanks ++ rest) = scan (position + blanks.length) rest := by
  induction blanks generalizing position with
  | nil => rfl
  | cons c blanks ih =>
    obtain ⟨hc, hblanks⟩ := List.forall_mem_cons.1 h
    rw [List.cons_append, scan_cons, if_pos hc, ih hblanks, List.length_cons, Nat.add_assoc,
      Nat.add_comm 1]

theorem scan_append_blanks {blanks : List Char} (h : ∀ c ∈ blanks, Text.isBlank c = true)
    (position : Nat) (cs : List Char) : scan position (cs ++ blanks) =
      (scan position cs).append ⟨[], .ok (position + cs.length + blanks.length)⟩ := by
  cases blanks with
  | nil => rw [List.append_nil, List.length_nil, Nat.add_zero, append_of_stop fun n => stop_scan]
  | cons c blanks =>
    obtain ⟨hc, hblanks⟩ := List.forall_mem_cons.1 h
    have hblanks := scan_blanks_append hblanks (position + cs.length + 1) []
    rw [List.append_nil, scan_nil] at hblanks
    rw [scan_append_blank hc, hblanks, List.length_cons, Nat.add_right_comm _ 1, Nat.add_assoc _ _ 1]

/-- Blanks at the end of a text are not read. -/
theorem readsAs_append_blanks {cs blanks : List Char} {ls : List Lexeme}
    (h : ∀ c ∈ blanks, Text.isBlank c = true) : ReadsAs (cs ++ blanks) ls ↔ ReadsAs cs ls := by
  refine forall_congr' fun position => ?_
  rw [scan_append_blanks h]
  obtain ⟨items, e | n⟩ := scan position cs
  · rfl
  · simp [append]

/-- Blanks inside no slice put what is read behind them further on. -/
theorem scan_insert_blanks {before blanks after : List Char}
    (hblanks : ∀ c ∈ blanks, Text.isBlank c = true) (hplace : Between (before ++ after) before.length) :
    scan 0 (before ++ (blanks ++ after)) =
      (scan 0 (before ++ after)).transcribe (.insertion before.length blanks.length) := by
  have hread : scan 0 (before ++ (blanks ++ after)) =
      (scan 0 before).append (scan (before.length + blanks.length) after) := by
    cases blanks with
    | nil => exact scan_append_of_between hplace
    | cons c blanks =>
      obtain ⟨hc, hblanks⟩ := List.forall_mem_cons.1 hblanks
      rw [List.cons_append, scan_append_blank hc, scan_blanks_append hblanks, List.length_cons]
      congr 2
      omega
  have hbefore : ∀ j < before.length,
      (Transcription.insertion before.length blanks.length).place (0 + j) = 0 + j := by
    intro j hj
    exact if_neg (by omega)
  have hafter : ∀ j, (Transcription.insertion before.length blanks.length).place
      (before.length + j) = before.length + blanks.length + j := by
    intro j
    rw [Nat.add_right_comm]
    exact if_pos (Nat.le_add_right _ _)
  rw [hread, scan_append_of_between hplace,
    transcribe_scan_append (fun _ => rfl) 0 before _ 0 hbefore,
    transcribe_scan (fun _ => rfl) fun j _ => hafter j]

end TokenStream

/-! ## Evaluating a text with more blanks in it -/

theorem listing_of_transcribe {r : Transcription} (hspelling : ∀ name, r.spelling name = name)
    {text text' : String}
    (h : TokenStream.ofString text' = (TokenStream.ofString text).transcribe r) :
    listing text' = listing text := by
  rw [listing, listing, h, TokenStream.tokens_transcribe, List.map_map]
  refine congrArg _ (List.map_congr_left fun t _ => congrArg Lexeme.text ?_)
  exact Lexeme.transcribe_eq_self hspelling t.lexeme

/-- Blanks may be put into a text at any place that is inside no number and no word that it is read as.
Its value, its warnings and its listing stay as they are; an error stays the same, but where it stands
behind the blanks it is found as much further on. -/
theorem evaluate_insert_blanks {before blanks after : String}
    (hblanks : ∀ c ∈ blanks.toList, Text.isBlank c = true)
    (hplace : Between (before ++ after).toList before.length) :
    evaluate (before ++ blanks ++ after) =
      match evaluate (before ++ after) with
      | .ok ev => .ok ev
      | .error e => .error (e.transcribe (.insertion before.length blanks.length)) := by
  have hread : TokenStream.ofString (before ++ blanks ++ after) =
      (TokenStream.ofString (before ++ after)).transcribe
        (.insertion before.length blanks.length) := by
    rw [TokenStream.ofString, TokenStream.ofString, String.toList_append, String.toList_append,
      String.toList_append, List.append_assoc, ← String.length_toList, ← String.length_toList]
    rw [String.toList_append, ← String.length_toList] at hplace
    exact TokenStream.scan_insert_blanks hblanks hplace
  rw [evaluate_of_transcribe _ hread, listing_of_transcribe (fun _ => rfl) hread]
  rcases hev : evaluate (before ++ after) with e | ev
  · rfl
  · obtain ⟨-, tree, -, -, -, hlisting⟩ := evaluate_eq_ok_iff.1 hev
    rw [← hlisting]
    rfl

/-- Blanks in front of an unknown name, which is found further on, and blanks behind it. -/
theorem evaluate_insert_blanks_unknown :
    evaluate "2*pi+foo(1)" = .error (.unknownFunction "foo" 5) ∧
    evaluate "2*pi\t\u3000+foo(1)" = .error (.unknownFunction "foo" 7) ∧
    evaluate "2*pi+foo\t\u3000(1)" = .error (.unknownFunction "foo" 5) := by
  have herror : evaluate "2*pi+foo(1)" = .error (.unknownFunction "foo" 5) := by decide +kernel
  have hblanks : ∀ c ∈ "\t\u3000".toList, Text.isBlank c = true := List.all_eq_true.1 (by decide)
  have hfront := @evaluate_insert_blanks "2*pi" "\t\u3000" "+foo(1)" hblanks
    (between_append (Slice.parted_symbol (c := '+') rfl))
  have hbehind := @evaluate_insert_blanks "2*pi+foo" "\t\u3000" "(1)" hblanks
    (between_append (Slice.parted_symbol (c := '(') rfl))
  have hwhole : "2*pi" ++ "+foo(1)" = "2*pi+foo(1)" := by decide
  have hwhole' : "2*pi+foo" ++ "(1)" = "2*pi+foo(1)" := by decide
  rw [hwhole, herror] at hfront
  rw [hwhole', herror] at hbehind
  exact ⟨herror, hfront, hbehind⟩

end DeskCalculator
