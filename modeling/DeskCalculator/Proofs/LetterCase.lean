import DeskCalculator.Proofs.Culprits
import DeskCalculator.Proofs.Listing

/-!
# Letter case

The case of the letters `a` to `z` never matters. A text in small letters is read as a transcription of
the text, which spells the names in small letters and leaves every token in its place
(`transcribe_scan_lowercase`). So two texts that are the same in small letters have the same outcome, but
for the spelling of the names in their listings and in an error (`evaluate_recased`).
-/

namespace DeskCalculator

/-- Whether two texts differ in the case of the letters `a` to `z` only. -/
def SameLetters (text text' : String) : Prop :=
  text.toLower = text'.toLower

theorem sameLetters_iff {text text' : String} :
    SameLetters text text' ↔ text.toList.map Char.toLower = text'.toList.map Char.toLower := by
  rw [SameLetters, ← String.toList_inj, String.toLower, String.toLower, String.toList_map,
    String.toList_map]

instance (text text' : String) : Decidable (SameLetters text text') :=
  decidable_of_iff _ sameLetters_iff.symm

/-! ## Characters in small letters -/

theorem toLower_of_not_isAlpha {c : Char} (h : ¬ c.isAlpha = true) : c.toLower = c := by
  refine Char.toLower_eq_of_not_isUpper fun hupper => h ?_
  rw [Char.isAlpha, hupper, Bool.true_or]

theorem toLower_of_isNumeric {c : Char} (h : TokenStream.isNumeric c = true) : c.toLower = c := by
  refine toLower_of_not_isAlpha ?_
  rw [Slice.isAlpha_of_isNumeric h]
  exact Bool.false_ne_true

/-- Small letters are in no class that has no letters, as the letters themselves are not. -/
theorem apply_toLower {p : Char → Bool} (hp : ∀ c, p c = true → c.isAlpha = false) (c : Char) :
    p c.toLower = p c := by
  by_cases hletter : c.isAlpha = true
  · have hclass : ∀ d : Char, d.isAlpha = true → p d = false := by
      intro d hd
      rw [Bool.eq_false_iff]
      intro h
      rw [hp d h] at hd
      cases hd
    rw [hclass c hletter, hclass c.toLower (c.isAlpha_toLower_eq_isAlpha.trans hletter)]
  · rw [toLower_of_not_isAlpha hletter]

theorem isBlank_toLower (c : Char) : Text.isBlank c.toLower = Text.isBlank c :=
  apply_toLower (fun _ => TokenStream.isAlpha_of_isBlank) c

theorem isNumeric_toLower (c : Char) : TokenStream.isNumeric c.toLower = TokenStream.isNumeric c :=
  apply_toLower (fun _ => Slice.isAlpha_of_isNumeric) c

theorem isDigit_toLower (c : Char) : c.toLower.isDigit = c.isDigit := by
  refine apply_toLower (fun d hd => Slice.isAlpha_of_isNumeric ?_) c
  rw [TokenStream.isNumeric, hd, Bool.true_or]

theorem takeWhile_toLower {p : Char → Bool} (hp : ∀ c, p c.toLower = p c) (cs : List Char) :
    (cs.map Char.toLower).takeWhile p = (cs.takeWhile p).map Char.toLower := by
  have hcomp : p ∘ Char.toLower = p := funext hp
  rw [List.takeWhile_map, hcomp]

theorem dropWhile_toLower {p : Char → Bool} (hp : ∀ c, p c.toLower = p c) (cs : List Char) :
    (cs.map Char.toLower).dropWhile p = (cs.dropWhile p).map Char.toLower := by
  have hcomp : p ∘ Char.toLower = p := funext hp
  rw [List.dropWhile_map, hcomp]

/-- A number is the same in small letters. -/
theorem takeWhile_isNumeric_toLower (cs : List Char) :
    (cs.map Char.toLower).takeWhile TokenStream.isNumeric = cs.takeWhile TokenStream.isNumeric := by
  rw [takeWhile_toLower isNumeric_toLower]
  exact (List.map_congr_left fun c hc => toLower_of_isNumeric (List.mem_takeWhile_imp hc)).trans
    (List.map_id _)

theorem map_toLower_map (cs : List Char) :
    (cs.map Char.toLower).map Char.toLower = cs.map Char.toLower := by
  rw [List.map_map]
  exact List.map_congr_left fun c _ => c.toLower_toLower_eq_toLower

theorem toLower_toLower (s : String) : s.toLower.toLower = s.toLower := by
  rw [← String.toList_inj, String.toLower, String.toLower, String.toList_map, String.toList_map,
    map_toLower_map]

/-! ## Texts in small letters -/

/-- The transcription into small letters, which leaves everything in its place. -/
def Transcription.lowercase : Transcription where
  place position := position
  spelling := String.toLower
  ofName?_spelling name := by
    rw [MathFunction.ofName?, MathFunction.ofName?, String.toLower, String.toList_map, map_toLower_map]

theorem Lexeme.ofWord_toLower (word : List Char) :
    ofWord (word.map Char.toLower) = (ofWord word).transcribe .lowercase := by
  have hname : String.ofList (word.map Char.toLower) = (String.ofList word).toLower := by
    rw [← String.toList_inj, String.toLower, String.toList_map, String.toList_ofList,
      String.toList_ofList]
  rw [ofWord, ofWord, map_toLower_map, hname]
  split
  · rfl
  · split <;> rfl

namespace TokenStream

/-- Characters in small letters are read as before, but for the spelling of the names. -/
theorem transcribe_scan_lowercase (position : Nat) (cs : List Char) :
    (scan position cs).transcribe .lowercase = scan position (cs.map Char.toLower) := by
  fun_induction scan position cs with
  | case1 position =>
    rw [List.map_nil, scan_nil]
    rfl
  | case2 position c cs hblank ih =>
    rw [List.map_cons, scan_cons, if_pos ((isBlank_toLower c).trans hblank), ih]
  | case3 position c cs hblank hdigit run ih =>
    have hnumeric : isNumeric c = true := by rw [isNumeric, hdigit, Bool.true_or]
    rw [List.map_cons, toLower_of_isNumeric hnumeric, scan_cons, if_neg hblank, if_pos hdigit,
      takeWhile_isNumeric_toLower, dropWhile_toLower isNumeric_toLower]
    exact congrArg₂ cons (transcribe_readNumber .lowercase run position) ih
  | case4 position c cs hblank hdigit halpha run ih =>
    rw [List.map_cons, scan_cons, isBlank_toLower, isDigit_toLower, Char.isAlpha_toLower_eq_isAlpha,
      if_neg hblank, if_neg hdigit, if_pos halpha, takeWhile_toLower Char.isAlpha_toLower_eq_isAlpha,
      dropWhile_toLower Char.isAlpha_toLower_eq_isAlpha]
    simp only
    rw [← List.map_cons, Lexeme.ofWord_toLower, List.length_map, ← ih]
    rfl
  | case5 position c cs hblank hdigit halpha lexeme hl ih =>
    have hlexeme : Token.transcribe .lowercase ⟨lexeme, position⟩ = ⟨lexeme, position⟩ := by
      rcases ofSymbol?_eq_some hl with ⟨op, rfl, -⟩ | ⟨rfl, -⟩ | ⟨rfl, -⟩ <;> rfl
    rw [List.map_cons, toLower_of_not_isAlpha halpha, scan_symbol hl]
    exact congrArg₂ cons (congrArg Except.ok hlexeme) ih
  | case6 position c cs hblank hdigit halpha hl =>
    rw [List.map_cons, toLower_of_not_isAlpha halpha, scan_cons, if_neg hblank, if_neg hdigit,
      if_neg halpha, hl]
    rfl

theorem ofString_toLower (text : String) :
    ofString text.toLower = (ofString text).transcribe .lowercase := by
  rw [ofString, ofString, String.toLower, String.toList_map, transcribe_scan_lowercase]

end TokenStream

/-! ## Listings -/

theorem toLower_intercalate (sep : String) (ss : List String) :
    (sep.intercalate ss).toLower = sep.toLower.intercalate (ss.map String.toLower) := by
  have hflat : ∀ cs : List Char, cs.map Char.toLower = cs.flatMap fun c => [c.toLower] :=
    fun cs => List.map_eq_flatMap
  rw [← String.toList_inj, String.toLower, String.toLower, String.toList_map,
    String.toList_intercalate, String.toList_intercalate, String.toList_map, hflat, flatMap_intercalate,
    ← hflat, List.map_map, List.map_map]
  refine congrArg _ (List.map_congr_left fun s _ => ?_)
  rw [Function.comp, Function.comp, ← hflat, String.toLower, String.toList_map]

theorem Lexeme.toLower_text_transcribe (l : Lexeme) :
    (l.transcribe .lowercase).text.toLower = l.text.toLower := by
  cases l with
  | name text => exact toLower_toLower text
  | _ => rfl

/-- In small letters, the listing of a text in small letters is that of the text. -/
theorem toLower_listing (text : String) : (listing text.toLower).toLower = (listing text).toLower := by
  rw [listing, listing, toLower_intercalate, toLower_intercalate, TokenStream.ofString_toLower,
    TokenStream.tokens_transcribe, List.map_map, List.map_map, List.map_map]
  exact congrArg _ (List.map_congr_left fun t _ => t.lexeme.toLower_text_transcribe)

/-! ## Outcomes -/

/-- Whether the outcomes of two texts are the same but for the case of the letters: listings have the same
letters, and an unknown name is in each text what is written there at the same place. -/
inductive Recased (text text' : String) : Except Error Evaluation → Except Error Evaluation → Prop
  | evaluated {value : Float} {ws : List Warning} {shown shown' : String}
      (hlisting : SameLetters shown shown') :
      Recased text text' (.ok ⟨value, ws, shown⟩) (.ok ⟨value, ws, shown'⟩)
  | refused {e : Error} (hname : ∀ name position, e ≠ .unknownFunction name position) :
      Recased text text' (.error e) (.error e)
  | unknownFunction (w : Slice text.toList) (w' : Slice text'.toList) (hstart : w.start = w'.start)
      (hletters : SameLetters (String.ofList w.chars) (String.ofList w'.chars)) :
      Recased text text' (.error (.unknownFunction (String.ofList w.chars) w.start))
        (.error (.unknownFunction (String.ofList w'.chars) w'.start))

theorem evaluate_toLower (text : String) : evaluate text.toLower =
    mapBoth (Error.transcribe .lowercase) (fun ev => { ev with listing := listing text.toLower })
      (evaluate text) :=
  evaluate_of_transcribe .lowercase (TokenStream.ofString_toLower text)

/-- Only a name changes in an error. -/
theorem Error.transcribe_lowercase (e : Error) :
    (e.transcribe .lowercase = e ∧ ∀ name position, e ≠ .unknownFunction name position) ∨
      ∃ name position, e = .unknownFunction name position ∧
        e.transcribe .lowercase = .unknownFunction name.toLower position := by
  cases e with
  | unknownFunction name position => exact .inr ⟨name, position, rfl, rfl⟩
  | lexical e => exact .inl ⟨by cases e <;> rfl, by rintro _ _ ⟨⟩⟩
  | _ => exact .inl ⟨rfl, by rintro _ _ ⟨⟩⟩

/-- An unknown name is written in the text at its place. -/
theorem exists_slice_of_unknownFunction {text : String} {name : String} {position : Nat}
    (h : evaluate text = .error (.unknownFunction name position)) :
    ∃ w : Slice text.toList, String.ofList w.chars = name ∧ w.start = position := by
  obtain ⟨ts, -, hts, -, hfirst⟩ := exists_firstError h
  cases culprit_of_firstError hts hfirst with
  | unknownFunction w => exact ⟨w, rfl, rfl⟩

theorem recased_of_error {text text' : String} {e e' : Error} (he : evaluate text = .error e)
    (he' : evaluate text' = .error e') (h : e.transcribe .lowercase = e'.transcribe .lowercase) :
    Recased text text' (.error e) (.error e') := by
  rcases e.transcribe_lowercase with ⟨hsame, hne⟩ | ⟨name, position, rfl, hname⟩ <;>
    rcases e'.transcribe_lowercase with ⟨hsame', hne'⟩ | ⟨name', position', rfl, hname'⟩
  · obtain rfl := hsame.symm.trans (h.trans hsame')
    exact .refused hne
  · exact absurd (hsame.symm.trans (h.trans hname')) (hne _ _)
  · exact absurd (hsame'.symm.trans (h.symm.trans hname)) (hne' _ _)
  · obtain ⟨hletters, rfl⟩ := Error.unknownFunction.inj (hname.symm.trans (h.trans hname'))
    obtain ⟨w, rfl, rfl⟩ := exists_slice_of_unknownFunction he
    obtain ⟨w', rfl, hstart⟩ := exists_slice_of_unknownFunction he'
    have hrecased := Recased.unknownFunction w w' hstart.symm hletters
    rwa [hstart] at hrecased

theorem recased_of_evaluated {text text' : String} {ev ev' : Evaluation} (hev : evaluate text = .ok ev)
    (hev' : evaluate text' = .ok ev') (h : SameLetters text text') (hvalue : ev.value = ev'.value)
    (hwarnings : ev.warnings = ev'.warnings) : Recased text text' (.ok ev) (.ok ev') := by
  obtain ⟨-, _, -, -, -, hlisting⟩ := evaluate_eq_ok_iff.1 hev
  obtain ⟨-, _, -, -, -, hlisting'⟩ := evaluate_eq_ok_iff.1 hev'
  obtain ⟨value, ws, _⟩ := ev
  obtain ⟨value', ws', _⟩ := ev'
  obtain rfl : value = value' := hvalue
  obtain rfl : ws = ws' := hwarnings
  obtain rfl : _ = listing text := hlisting
  obtain rfl : _ = listing text' := hlisting'
  refine .evaluated ?_
  rw [SameLetters, ← toLower_listing, h, toLower_listing]

/-- The case of the letters never matters: two texts with the same letters have the same outcome, but for
the case of the letters in the names that it shows. -/
theorem evaluate_recased {text text' : String} (h : SameLetters text text') :
    Recased text text' (evaluate text) (evaluate text') := by
  have houtcome := evaluate_toLower text
  rw [h, evaluate_toLower text'] at houtcome
  rcases hev : evaluate text with e | ev <;> rcases hev' : evaluate text' with e' | ev' <;>
    rw [hev, hev'] at houtcome
  · exact recased_of_error hev hev' (Except.error.inj houtcome).symm
  · cases houtcome
  · cases houtcome
  · have hev'' := Except.ok.inj houtcome
    exact recased_of_evaluated hev hev' h (congrArg Evaluation.value hev'').symm
      (congrArg Evaluation.warnings hev'').symm

/-- An unknown name in capital letters, behind a constant and inside a call in other letters. -/
theorem evaluate_recased_unknown :
    evaluate "pi*sin(foo(1))" = .error (.unknownFunction "foo" 7) ∧
      evaluate "PI*Sin(FoO(1))" = .error (.unknownFunction "FoO" 7) ∧
      Recased "pi*sin(foo(1))" "PI*Sin(FoO(1))" (evaluate "pi*sin(foo(1))")
        (evaluate "PI*Sin(FoO(1))") :=
  ⟨by decide +kernel, by decide +kernel, evaluate_recased (by decide +kernel)⟩

end DeskCalculator
