import DeskCalculator.Proofs.Coverage

/-!
# Places between the slices

A text is read as slices. A place that is inside none of them divides the text into two parts, and
either is read as if the other were not there (`scan_append_of_between`). Such a place is found wherever
the characters on its two sides do not belong to one number or one word (`between_of_parted`).
-/

namespace DeskCalculator

/-- Whether a place is inside none of the slices that a text is read as. -/
def Between (text : List Char) (i : Nat) : Prop :=
  ∀ w : Slice text, ∀ item ∈ (TokenStream.scan 0 text).items, w.ReadAs item →
    i ≤ w.start ∨ w.stop ≤ i

namespace Slice

open TokenStream (scan cons readNumber isNumeric)

variable {text : List Char}

/-! ## Runs that end in front of a place -/

theorem takeWhile_append_of_length_le {p : Char → Bool} {cs rest : List Char}
    (h : ((cs ++ rest).takeWhile p).length ≤ cs.length) :
    (cs ++ rest).takeWhile p = cs.takeWhile p ∧
      (cs ++ rest).dropWhile p = cs.dropWhile p ++ rest := by
  induction cs with
  | nil =>
    have hnil : rest.takeWhile p = [] := List.eq_nil_of_length_eq_zero (Nat.le_zero.1 h)
    have hrest := List.takeWhile_append_dropWhile (p := p) (l := rest)
    rw [hnil, List.nil_append] at hrest
    exact ⟨hnil, hrest⟩
  | cons c cs ih =>
    rw [List.cons_append] at h ⊢
    by_cases hc : p c = true
    · rw [List.takeWhile_cons_of_pos hc] at h ⊢
      obtain ⟨htake, hdrop⟩ := ih (Nat.le_of_succ_le_succ h)
      rw [List.takeWhile_cons_of_pos hc, List.dropWhile_cons_of_pos hc, List.dropWhile_cons_of_pos hc,
        htake, hdrop]
      exact ⟨rfl, rfl⟩
    · rw [List.takeWhile_cons_of_neg hc, List.takeWhile_cons_of_neg hc,
        List.dropWhile_cons_of_neg hc, List.dropWhile_cons_of_neg hc]
      exact ⟨rfl, rfl⟩

/-- The classes of characters whose longest runs are slices. -/
structure Joins (p : Char → Bool) : Prop where
  blank : ∀ b, Text.isBlank b = true → p b = false
  left : ∀ {before rest : List Char} {c : Char}, Parted before (c :: rest) → p c = true →
    ∀ b ∈ before.getLast?, p b = false
  behind : ∀ {before run rest : List Char}, run ≠ [] → (∀ c ∈ run, p c = true) →
    (∀ d ∈ rest.head?, p d = false) → Parted (before ++ run) rest

theorem joins_isNumeric : Joins isNumeric where
  blank _ := TokenStream.isNumeric_of_isBlank
  left hparted hc b hb := (hparted b hb _ rfl).1 hc
  behind := parted_behind_number

theorem joins_isAlpha : Joins Char.isAlpha where
  blank _ := TokenStream.isAlpha_of_isBlank
  left hparted hc b hb := (hparted b hb _ rfl).2 hc
  behind := parted_behind_word

theorem parted_behind_blank {before rest : List Char} {c : Char} (hc : Text.isBlank c = true) :
    Parted (before ++ [c]) rest := by
  refine parted_append (List.cons_ne_nil c []) fun b hb d _ => ?_
  obtain rfl := List.mem_singleton.1 hb
  exact ⟨fun _ => TokenStream.isNumeric_of_isBlank hc, fun _ => TokenStream.isAlpha_of_isBlank hc⟩

/-- A run that is read as a slice and does not go over a place ends as if nothing stood behind the
place. -/
theorem takeWhile_append_of_readAs {p : Char → Bool} (hp : Joins p) (item : List Char → Item)
    {before cs rest : List Char} {c : Char} (htext : before ++ (c :: cs ++ rest) = text)
    (hparted : Parted before (c :: cs ++ rest)) (hc : p c = true)
    (hread : ∀ w : Slice text, w.start = before.length → w.chars.head? = some c → w.IsRun p →
      w.ReadAs (item w.chars))
    (hplace : ∀ w : Slice text, w.ReadAs (item (c :: (cs ++ rest).takeWhile p)) →
      before.length + (c :: cs).length ≤ w.start ∨ w.stop ≤ before.length + (c :: cs).length) :
    (cs ++ rest).takeWhile p = cs.takeWhile p ∧
      (cs ++ rest).dropWhile p = cs.dropWhile p ++ rest := by
  have hsplit : before ++ ([] ++ c :: (cs ++ rest).takeWhile p ++ (cs ++ rest).dropWhile p) = text := by
    rw [← htext, List.nil_append, List.cons_append, List.takeWhile_append_dropWhile, List.cons_append]
  have hrun := isRun_behind hsplit (fun b hb => nomatch hb) hp.blank
    (fun b hb d hd hpd => by obtain rfl := Option.some.inj hd; exact hp.left hparted hpd b hb) hc
    (fun d hd => List.mem_takeWhile_imp hd) Scanner.head?_dropWhile_eq_false
  have hstart := start_behind hsplit
  have hstop := stop_behind hsplit
  apply takeWhile_append_of_length_le
  rcases hplace _ (hread _ hstart rfl hrun) with hle | hle
  · rw [hstart] at hle
    simp only [List.length_cons, List.length_nil] at hle
    omega
  · rw [hstop] at hle
    simp only [List.length_cons, List.length_nil] at hle
    omega

/-! ## Dividing a text -/

/-- Whether some characters and those behind them are read without regard to each other. -/
def Divided (position : Nat) (cs rest : List Char) : Prop :=
  scan position (cs ++ rest) = (scan position cs).append (scan (position + cs.length) rest)

theorem Divided.blank {position : Nat} {cs rest : List Char} {c : Char}
    (hc : Text.isBlank c = true) (h : Divided (position + 1) cs rest) :
    Divided position (c :: cs) rest := by
  rw [Divided, List.cons_append, TokenStream.scan_cons, if_pos hc, TokenStream.scan_cons, if_pos hc, h,
    List.length_cons, Nat.add_right_comm]
  rfl

theorem Divided.slice {position : Nat} {cs run rest : List Char} {item : Item}
    (hscan : scan position (run ++ cs ++ rest) =
      cons item (scan (position + run.length) (cs ++ rest)))
    (hscan' : scan position (run ++ cs) = cons item (scan (position + run.length) cs))
    (h : Divided (position + run.length) cs rest) : Divided position (run ++ cs) rest := by
  rw [Divided, hscan, hscan', TokenStream.cons_append, h, List.length_append, Nat.add_assoc]

theorem divided_of_startsNothing {position : Nat} {cs rest : List Char} {c : Char}
    (hc : Scanner.StartsNothing c) : Divided position (c :: cs) rest := by
  obtain ⟨hblank, hdigit, halpha, hsymbol⟩ := hc
  have hscan : ∀ cs', scan position (c :: cs') = ⟨[], .error (.unknownOperator c position)⟩ := by
    intro cs'
    rw [TokenStream.scan_cons, if_neg (Bool.eq_false_iff.1 hblank),
      if_neg (Bool.eq_false_iff.1 hdigit), if_neg (Bool.eq_false_iff.1 halpha), hsymbol]
  rw [Divided, List.cons_append, hscan, hscan]
  rfl

/-- A run of a class is divided from what follows where the text behind it is. -/
theorem Divided.run {p : Char → Bool} (hp : Joins p) (item : List Char → Item)
    {before cs rest : List Char} {c : Char} (htext : before ++ (c :: cs ++ rest) = text)
    (hparted : Parted before (c :: cs ++ rest)) (hc : p c = true)
    (hscan : ∀ cs', scan before.length (c :: cs') = cons (item (c :: cs'.takeWhile p))
      (scan (before.length + (c :: cs'.takeWhile p).length) (cs'.dropWhile p)))
    (hread : ∀ w : Slice text, w.start = before.length → w.chars.head? = some c → w.IsRun p →
      w.ReadAs (item w.chars))
    (hplace : ∀ w : Slice text, ∀ item ∈ (scan before.length (c :: cs ++ rest)).items,
      w.ReadAs item →
        before.length + (c :: cs).length ≤ w.start ∨ w.stop ≤ before.length + (c :: cs).length)
    (hrest : ∀ run cs', run ≠ [] → run ++ cs' = c :: cs → Parted (before ++ run) (cs' ++ rest) →
      (scan (before.length + run.length) (cs' ++ rest)).items ⊆
        (scan before.length (c :: cs ++ rest)).items →
      Divided (before.length + run.length) cs' rest) :
    Divided before.length (c :: cs) rest := by
  obtain ⟨htake, hdrop⟩ := takeWhile_append_of_readAs hp item htext hparted hc hread
    fun w hw => hplace w _ (by rw [List.cons_append, hscan]; exact List.mem_cons_self) hw
  have hsplit : c :: cs.takeWhile p ++ cs.dropWhile p = c :: cs := by
    rw [List.cons_append, List.takeWhile_append_dropWhile]
  have hwhole : scan before.length (c :: cs ++ rest) = cons (item (c :: cs.takeWhile p))
      (scan (before.length + (c :: cs.takeWhile p).length) (cs.dropWhile p ++ rest)) := by
    rw [List.cons_append, hscan, htake, hdrop]
  have hbehind : Parted (before ++ c :: cs.takeWhile p) (cs.dropWhile p ++ rest) := by
    rw [← hdrop]
    exact hp.behind (List.cons_ne_nil _ _)
      (List.forall_mem_cons.2 ⟨hc, fun d hd => List.mem_takeWhile_imp hd⟩)
      Scanner.head?_dropWhile_eq_false
  have hdivided := hrest _ _ (List.cons_ne_nil _ _) hsplit hbehind
    (by rw [hwhole]; exact List.subset_cons_self _ _)
  have hpart := hdivided.slice (by rw [hsplit, hwhole]) (by rw [hsplit, hscan])
  rwa [hsplit] at hpart

/-- A text falls apart at a place inside no slice, once its beginning has been read. -/
theorem divided_of_parted {before cs rest : List Char} (htext : before ++ (cs ++ rest) = text)
    (hparted : Parted before (cs ++ rest))
    (hplace : ∀ w : Slice text, ∀ item ∈ (scan before.length (cs ++ rest)).items, w.ReadAs item →
      before.length + cs.length ≤ w.start ∨ w.stop ≤ before.length + cs.length) :
    Divided before.length cs rest := by
  induction hn : cs.length using Nat.strong_induction_on generalizing before cs with
  | _ n ih =>
    subst hn
    cases cs with
    | nil =>
      rw [Divided, TokenStream.scan_nil]
      rfl
    | cons c cs =>
      -- the part behind the first slice is divided at the same place
      have hrest : ∀ run cs', run ≠ [] → run ++ cs' = c :: cs →
          Parted (before ++ run) (cs' ++ rest) →
          (scan (before.length + run.length) (cs' ++ rest)).items ⊆
            (scan before.length (c :: cs ++ rest)).items →
          Divided (before.length + run.length) cs' rest := by
        intro run cs' hne hrun hparted' hitems
        have hpos := List.length_pos_iff.2 hne
        have hlength : run.length + cs'.length = (c :: cs).length := by
          rw [← List.length_append, hrun]
        have htext' : before ++ run ++ (cs' ++ rest) = text := by
          rw [← htext, ← hrun, List.append_assoc, List.append_assoc]
        rw [← List.length_append] at hitems ⊢
        refine ih cs'.length (by omega) htext' hparted' (fun w item hitem hread => ?_) rfl
        rw [List.length_append, Nat.add_assoc, hlength]
        exact hplace w item (hitems hitem) hread
      by_cases hblank : Text.isBlank c = true
      · have hscan : scan before.length (c :: cs ++ rest) = scan (before.length + 1) (cs ++ rest) := by
          rw [List.cons_append, TokenStream.scan_cons, if_pos hblank]
        exact .blank hblank (hrest [c] cs (List.cons_ne_nil c []) rfl (parted_behind_blank hblank)
          (by rw [hscan]; exact List.Subset.refl _))
      by_cases hdigit : c.isDigit = true
      · have hnumeric : isNumeric c = true := by rw [isNumeric, hdigit]; rfl
        refine .run joins_isNumeric (readNumber · before.length) htext hparted hnumeric
          (fun cs' => ?_) (fun w hstart hhead hrun => ?_) hplace hrest
        · rw [TokenStream.scan_cons, if_neg hblank, if_pos hdigit]
        · rw [← hstart]
          refine readAs_number hrun fun d hd => ?_
          obtain rfl := Option.some.inj (hhead.symm.trans hd)
          exact hdigit
      by_cases halpha : c.isAlpha = true
      · refine .run joins_isAlpha (fun run => .ok ⟨.ofWord run, before.length⟩) htext hparted halpha
          (fun cs' => ?_) (fun w hstart hhead hrun => ?_) hplace hrest
        · rw [TokenStream.scan_cons, if_neg hblank, if_neg hdigit, if_pos halpha]
        · rw [← hstart]
          exact readAs_word hrun
      rcases hsymbol : Lexeme.ofSymbol? c with _ | lexeme
      · exact divided_of_startsNothing ⟨Bool.eq_false_iff.2 hblank, Bool.eq_false_iff.2 hdigit,
          Bool.eq_false_iff.2 halpha, hsymbol⟩
      · have hscan := TokenStream.scan_symbol hsymbol before.length
        exact (hrest [c] cs (List.cons_ne_nil c []) rfl (parted_behind_symbol hsymbol)
          (by rw [List.cons_append, hscan]; exact List.subset_cons_self _ _)).slice
            (hscan _) (hscan _)

/-! ## Places between characters -/

theorem ReadAs.all_or_length_eq_one {w : Slice text} {item : Item} (h : w.ReadAs item) :
    (∀ c ∈ w.chars, isNumeric c = true) ∨ (∀ c ∈ w.chars, c.isAlpha = true) ∨ w.chars.length = 1 := by
  cases h with
  | number hrun => exact .inl hrun.all
  | malformed hrun => exact .inl hrun.all
  | constant hrun => exact .inr (.inl hrun.all)
  | name hrun => exact .inr (.inl hrun.all)
  | operator op hchars => exact .inr (.inr (by rw [hchars]; rfl))
  | leftParen hchars => exact .inr (.inr (by rw [hchars]; rfl))
  | rightParen hchars => exact .inr (.inr (by rw [hchars]; rfl))

theorem mem_chars_of_getElem? (w : Slice text) {i : Nat} {c : Char} (hc : text[i]? = some c)
    (hstart : w.start ≤ i) (hstop : i < w.stop) : c ∈ w.chars := by
  rw [← w.text_eq, List.getElem?_append_left (by rw [List.length_append]; exact hstop),
    List.getElem?_append_right hstart] at hc
  exact List.mem_of_getElem? hc

theorem stop_le_length (w : Slice text) : w.stop ≤ text.length := by
  have hlength := congrArg List.length w.text_eq
  rw [List.length_append, List.length_append] at hlength
  exact hlength ▸ Nat.le_add_right _ _

end Slice

/-- A place inside no slice divides a text into what stands before it and what stands behind it. -/
theorem scan_append_of_between {cs rest : List Char} (h : Between (cs ++ rest) cs.length) :
    TokenStream.scan 0 (cs ++ rest) =
      (TokenStream.scan 0 cs).append (TokenStream.scan cs.length rest) := by
  have hdivided := @Slice.divided_of_parted (cs ++ rest) [] cs rest rfl (fun c hc => nomatch hc)
    (by rw [List.length_nil, Nat.zero_add]; exact h)
  rw [List.length_nil, Slice.Divided, Nat.zero_add] at hdivided
  exact hdivided

/-- No slice goes over a place where neither a number nor a word goes on. -/
theorem between_of_parted {cs rest : List Char} (h : Slice.Parted cs rest) :
    Between (cs ++ rest) cs.length := by
  intro w item hitem hread
  by_contra hinside
  rw [not_or, Nat.not_le, Nat.not_le] at hinside
  obtain ⟨hstart, hstop⟩ := hinside
  have hlength := w.stop_le_length
  rw [List.length_append] at hlength
  have hrest : 0 < rest.length := by omega
  -- the last character in front of the place and the first behind it are in the slice
  have hlast : cs.getLast? = some cs[cs.length - 1] := by
    rw [List.getLast?_eq_getElem?, List.getElem?_eq_getElem]
  have hb : cs[cs.length - 1] ∈ w.chars := by
    refine w.mem_chars_of_getElem? (i := cs.length - 1) ?_ (by omega) (by omega)
    rw [List.getElem?_append_left (by omega), List.getElem?_eq_getElem]
  have hd : rest[0] ∈ w.chars := by
    refine w.mem_chars_of_getElem? (i := cs.length) ?_ (Nat.le_of_lt hstart) hstop
    rw [List.getElem?_append_right (Nat.le_refl _), Nat.sub_self, List.getElem?_eq_getElem]
  have hpart := h _ hlast rest[0] (by rw [List.head?_eq_getElem?, List.getElem?_eq_getElem]; rfl)
  rcases hread.all_or_length_eq_one with hall | hall | hone
  · exact absurd (hall _ hb) (Bool.eq_false_iff.1 (hpart.1 (hall _ hd)))
  · exact absurd (hall _ hb) (Bool.eq_false_iff.1 (hpart.2 (hall _ hd)))
  · rw [Slice.stop, hone] at hstop
    rw [Slice.start] at hstart
    omega

/-- Neither a number nor a word goes on with a symbol. -/
theorem Slice.parted_symbol {before rest : List Char} {c : Char} {lexeme : Lexeme}
    (hc : Lexeme.ofSymbol? c = some lexeme) : Slice.Parted before (c :: rest) := by
  intro b _ d hd
  obtain rfl := Option.some.inj hd
  obtain ⟨-, hnumeric, halpha⟩ := TokenStream.classes_of_ofSymbol? hc
  exact ⟨fun h => absurd h (Bool.eq_false_iff.1 hnumeric),
    fun h => absurd h (Bool.eq_false_iff.1 halpha)⟩

/-! ## Texts side by side -/

theorem between_append {before after : String} (h : Slice.Parted before.toList after.toList) :
    Between (before ++ after).toList before.length := by
  rw [String.toList_append, ← String.length_toList]
  exact between_of_parted h

namespace TokenStream

theorem readsAs_of_scan {cs : List Char} {ts : List Token} {n : Nat}
    (h : scan 0 cs = ⟨ts.map .ok, .ok n⟩) : ReadsAs cs (ts.map Token.lexeme) := by
  have hscan : ofString (String.ofList cs) = ⟨ts.map .ok, .ok n⟩ := by
    rw [ofString, String.toList_ofList, h]
  have hitems : (ofString (String.ofList cs)).items = ts.map .ok := by rw [hscan]
  have hread := (readable_of_items_eq hitems (by rw [hscan])).readsAs
  rw [String.toList_ofList, tokens_of_items_eq hitems] at hread
  exact hread

/-- Texts that no number and no word goes over are read side by side. -/
theorem ReadsAs.append_of_parted {cs rest : List Char} {us vs : List Lexeme} (hcs : ReadsAs cs us)
    (hrest : ReadsAs rest vs) (hparted : Slice.Parted cs rest) :
    ReadsAs (cs ++ rest) (us ++ vs) := by
  obtain ⟨ts, n, hscan, rfl⟩ := hcs 0
  obtain ⟨ts', n', hscan', rfl⟩ := hrest cs.length
  rw [← List.map_append]
  refine readsAs_of_scan (n := n') ?_
  rw [scan_append_of_between (between_of_parted hparted), hscan, hscan', List.map_append]
  rfl

end TokenStream

end DeskCalculator
