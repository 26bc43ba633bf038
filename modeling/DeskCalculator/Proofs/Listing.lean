import DeskCalculator.Proofs.Acceptance
import DeskCalculator.Proofs.Numerals

/-!
# Listings as input

The listing of the tokens of a text is itself a text, once the sign of pi is spelt out. Each lexeme is
read back from its text in the listing (`readBack_of_scanned`), and the spaces keep them apart
(`scan_intercalate`). What is read differs from what was listed in one thing only: a number may have
lost or gained its point. The value of a tree does not depend on it, so that a listing is evaluated as
the text whose tokens it lists, and is its own listing (`evaluate_listing`).
-/

namespace DeskCalculator

/-! ## The sign of pi -/

/-- A character of a listing as it can be typed. -/
def spell (c : Char) : List Char :=
  if c = 'π' then ['p', 'i'] else [c]

/-- A listing with the word for the sign of pi. -/
def spellPi (s : String) : String :=
  String.ofList (s.toList.flatMap spell)

theorem flatMap_spell_of_ne {cs : List Char} (h : ∀ c ∈ cs, c ≠ 'π') : cs.flatMap spell = cs := by
  induction cs with
  | nil => rfl
  | cons c cs ih =>
    obtain ⟨hc, hcs⟩ := List.forall_mem_cons.1 h
    rw [List.flatMap_cons, ih hcs, spell, if_neg hc]
    rfl

theorem flatMap_intercalate {α β : Type} (f : α → List β) (sep : List α) (xss : List (List α)) :
    (sep.intercalate xss).flatMap f = (sep.flatMap f).intercalate (xss.map (·.flatMap f)) := by
  induction xss with
  | nil => rfl
  | cons xs xss ih =>
    cases xss with
    | nil => simp only [List.map_cons, List.map_nil, List.intercalate_singleton]
    | cons xs' xss =>
      rw [List.intercalate_cons_cons, List.flatMap_append, List.flatMap_append, ih]
      rw [List.map_cons, List.map_cons, List.map_cons, List.intercalate_cons_cons]

/-! ## Lexemes read back -/

/-- Whether there is a point in the text of a number. -/
def Numeral.hasPoint (x : Float) : Bool :=
  (text x).toList.contains '.'

namespace Lexeme

/-- The lexeme that is read where a listing shows another. -/
def relisted : Lexeme → Lexeme
  | number value _ => number value (Numeral.hasPoint value)
  | constant c => constant c
  | name text => name text
  | operator op => operator op
  | leftParen => leftParen
  | rightParen => rightParen

theorem text_relisted (l : Lexeme) : l.relisted.text = l.text := by
  cases l <;> rfl

/-- The characters that are typed for a lexeme of a listing. -/
def spelled (l : Lexeme) : List Char :=
  l.text.toList.flatMap spell

/-- Whether a lexeme is read back from its text in a listing. -/
def ReadBack (l : Lexeme) : Prop :=
  TokenStream.OneToken l.spelled l.relisted

open Binary64

theorem readBack_number {n : Nat} (h : n < infinityOrdinal) (fractional : Bool) :
    ReadBack (number (ofOrdinal false n) fractional) := by
  have hle := Nat.le_of_lt h
  have hfinite : (ofOrdinal false n).isFinite = true := by
    rw [isFinite_iff, ordinal_ofOrdinal _ hle]
    exact h
  obtain ⟨cs, hcs, hvalue, htext⟩ := Numeral.exists_numeral_of_isFinite hfinite
  rw [isNegative_ofOrdinal _ hle, if_neg Bool.false_ne_true] at htext
  rw [ordinal_ofOrdinal _ hle] at hvalue
  have hspelled : (number (ofOrdinal false n) fractional).spelled = cs := by
    rw [spelled, text, htext, String.toList_ofList]
    refine flatMap_spell_of_ne ?_
    rintro c hc rfl
    exact absurd (hcs.numeric _ hc) (by decide)
  have hnumeral := TokenStream.oneToken_numeral hcs
  rw [hvalue] at hnumeral
  rw [ReadBack, hspelled, relisted, Numeral.hasPoint, htext, String.toList_ofList]
  exact hnumeral

theorem readBack_constant (c : Constant) : ReadBack (constant c) := by
  have hpi : TokenStream.OneToken ['p', 'i'] (.ofWord ['p', 'i']) :=
    TokenStream.oneToken_word (List.cons_ne_nil _ _) (List.all_eq_true.1 rfl)
  have heuler : TokenStream.OneToken ['e'] (.ofWord ['e']) :=
    TokenStream.oneToken_word (List.cons_ne_nil _ _) (List.all_eq_true.1 rfl)
  cases c
  · exact hpi
  · exact heuler

theorem readBack_name {run : List Char} (hne : run ≠ []) (hrun : ∀ c ∈ run, c.isAlpha = true)
    (hword : ofWord run = name (String.ofList run)) : ReadBack (name (String.ofList run)) := by
  have hspelled : (name (String.ofList run)).spelled = run := by
    rw [spelled, text, String.toList_ofList]
    refine flatMap_spell_of_ne ?_
    rintro c hc rfl
    exact absurd (hrun _ hc) (by decide)
  rw [ReadBack, hspelled, relisted, ← hword]
  exact TokenStream.oneToken_word hne hrun

theorem readBack_operator (op : Operator) : ReadBack (operator op) := by
  have hspelled : (operator op).spelled = [op.symbol] := by
    rcases op with (_ | _) | (_ | _ | _ | _) <;> rfl
  rw [ReadBack, hspelled]
  exact TokenStream.oneToken_symbol (ofSymbol?_symbol op)

/-- A lexeme of a text is read back from the listing, if it is no infinite number. -/
theorem readBack_of_scanned {l : Lexeme} (h : TokenStream.Scanned l)
    (hfinite : ∀ value fractional, l = number value fractional → value.isFinite = true) :
    ReadBack l := by
  cases h with
  | number run =>
    have hfinite := isFinite_iff.1 (hfinite _ _ rfl)
    rw [Decimal.toFloat, ordinal_ofOrdinal _ (Decimal.ordinal_le _)] at hfinite
    exact readBack_number hfinite _
  | constant c => exact readBack_constant c
  | name hne hrun hword => exact readBack_name hne hrun hword
  | operator op => exact readBack_operator op
  | leftParen => exact TokenStream.oneToken_symbol (c := '(') rfl
  | rightParen => exact TokenStream.oneToken_symbol (c := ')') rfl

end Lexeme

namespace TokenStream

/-- The lexemes of a listing are read back one after the other. -/
theorem scan_intercalate {ls : List Lexeme} (h : ∀ l ∈ ls, l.ReadBack) :
    ReadsAs ([' '].intercalate (ls.map Lexeme.spelled)) (ls.map Lexeme.relisted) := by
  induction ls with
  | nil => exact readsAs_nil
  | cons l ls ih =>
    obtain ⟨hl, hls⟩ := List.forall_mem_cons.1 h
    have hl : ReadsAs l.spelled [l.relisted] := OneToken.readsAs hl
    cases ls with
    | nil =>
      rw [List.map_cons, List.map_nil, List.intercalate_singleton]
      exact hl
    | cons l' ls =>
      rw [List.map_cons, List.map_cons, List.intercalate_cons_cons, List.append_assoc]
      exact hl.append ((ih hls).cons_blank (by decide)) (by decide) (by decide)

end TokenStream

theorem spellPi_listing (text : String) : spellPi (listing text) =
    String.ofList ([' '].intercalate
      (((TokenStream.ofString text).tokens.map Token.lexeme).map Lexeme.spelled)) := by
  have hspace : " ".toList.flatMap spell = [' '] := by decide
  rw [spellPi, listing, String.toList_intercalate, flatMap_intercalate, hspace, List.map_map,
    List.map_map, List.map_map]
  rfl

/-! ## Trees read back -/

mutual

/-- The tree that is read where a listing shows the lexemes of another. -/
def Expression.relisted : Expression → Expression
  | .term t => .term t.relisted
  | .sum left op right => .sum left.relisted op right.relisted

/-- The term that is read where a listing shows the lexemes of another. -/
def Term.relisted : Term → Term
  | .factor f => .factor f.relisted
  | .product left op right => .product left.relisted op right.relisted

/-- The factor that is read where a listing shows the lexemes of another. -/
def Factor.relisted : Factor → Factor
  | .number value _ => .number value (Numeral.hasPoint value)
  | .constant c => .constant c
  | .call name argument => .call name argument.relisted
  | .group inner => .group inner.relisted
  | .negation operand => .negation operand.relisted

end

mutual

theorem Expression.lexemes_relisted (x : Expression) :
    x.relisted.lexemes = x.lexemes.map Lexeme.relisted := by
  cases x with
  | term t => exact t.lexemes_relisted
  | sum left op right =>
    rw [Expression.relisted, Expression.lexemes, Expression.lexemes, left.lexemes_relisted,
      right.lexemes_relisted, List.map_append, List.map_cons, Lexeme.relisted]

theorem Term.lexemes_relisted (t : Term) : t.relisted.lexemes = t.lexemes.map Lexeme.relisted := by
  cases t with
  | factor f => exact f.lexemes_relisted
  | product left op right =>
    rw [Term.relisted, Term.lexemes, Term.lexemes, left.lexemes_relisted, right.lexemes_relisted,
      List.map_append, List.map_cons, Lexeme.relisted]

theorem Factor.lexemes_relisted (f : Factor) :
    f.relisted.lexemes = f.lexemes.map Lexeme.relisted := by
  cases f with
  | number value fractional => rfl
  | constant c => rfl
  | call name argument =>
    simp only [Factor.relisted, Factor.lexemes, argument.lexemes_relisted, List.map_cons,
      List.map_append, List.map_nil, Lexeme.relisted]
  | group inner =>
    simp only [Factor.relisted, Factor.lexemes, inner.lexemes_relisted, List.map_cons,
      List.map_append, List.map_nil, Lexeme.relisted]
  | negation operand =>
    simp only [Factor.relisted, Factor.lexemes, operand.lexemes_relisted, List.map_cons,
      Lexeme.relisted]

end

mutual

theorem Expression.depth_relisted (x : Expression) : x.relisted.depth = x.depth := by
  cases x with
  | term t => exact t.depth_relisted
  | sum left op right =>
    rw [Expression.relisted, Expression.depth, Expression.depth, left.depth_relisted,
      right.depth_relisted]

theorem Term.depth_relisted (t : Term) : t.relisted.depth = t.depth := by
  cases t with
  | factor f => exact f.depth_relisted
  | product left op right =>
    rw [Term.relisted, Term.depth, Term.depth, left.depth_relisted, right.depth_relisted]

theorem Factor.depth_relisted (f : Factor) : f.relisted.depth = f.depth := by
  cases f with
  | number value fractional => rfl
  | constant c => rfl
  | call name argument => exact congrArg (· + 1) argument.depth_relisted
  | group inner => exact congrArg (· + 1) inner.depth_relisted
  | negation operand => exact congrArg (· + 1) operand.depth_relisted

end

mutual

theorem Expression.eval?_relisted (x : Expression) : x.relisted.eval? = x.eval? := by
  cases x with
  | term t => rw [Expression.relisted, Expression.eval?, Expression.eval?, t.eval?_relisted]
  | sum left op right =>
    rw [Expression.relisted, Expression.eval?, Expression.eval?, left.eval?_relisted,
      right.eval?_relisted]

theorem Term.eval?_relisted (t : Term) : t.relisted.eval? = t.eval? := by
  cases t with
  | factor f => rw [Term.relisted, Term.eval?, Term.eval?, f.eval?_relisted]
  | product left op right =>
    rw [Term.relisted, Term.eval?, Term.eval?, left.eval?_relisted, right.eval?_relisted]

theorem Factor.eval?_relisted (f : Factor) : f.relisted.eval? = f.eval? := by
  cases f with
  | number value fractional => rfl
  | constant c => rfl
  | call name argument =>
    rw [Factor.relisted, Factor.eval?, Factor.eval?, argument.eval?_relisted]
  | group inner => exact inner.eval?_relisted
  | negation operand =>
    rw [Factor.relisted, Factor.eval?, Factor.eval?, operand.eval?_relisted]

end

/-! ## Listings -/

/-- The listing of a text whose numbers are finite, with the word for the sign of pi, is evaluated as the
text is: to the same value, bit for bit, with the same warnings and the same listing. -/
theorem evaluate_listing {text : String} {ev : Evaluation} (h : evaluate text = .ok ev)
    (hfinite : ∀ t ∈ (TokenStream.ofString text).tokens, ∀ value fractional,
      t.lexeme = .number value fractional → value.isFinite = true) :
    evaluate (spellPi ev.listing) = .ok ev := by
  obtain ⟨-, tree, hlexemes, hdepth, hvalue, hlisting⟩ := evaluate_eq_ok_iff.1 h
  have hreadBack : ∀ l ∈ (TokenStream.ofString text).tokens.map Token.lexeme, l.ReadBack := by
    intro l hl
    obtain ⟨t, ht, rfl⟩ := List.mem_map.1 hl
    refine Lexeme.readBack_of_scanned ?_ (hfinite t ht)
    exact TokenStream.scanned_of_mem_scan (TokenStream.mem_items_of_mem_tokens ht)
  obtain ⟨ts, n, hscan, hts⟩ := TokenStream.scan_intercalate hreadBack 0
  have htext : TokenStream.ofString (spellPi ev.listing) = ⟨ts.map .ok, .ok n⟩ := by
    rw [hlisting, spellPi_listing, TokenStream.ofString, String.toList_ofList, hscan]
  have hrelisted : listing (spellPi ev.listing) = ev.listing := by
    have htokens : (TokenStream.ofString (spellPi ev.listing)).tokens = ts :=
      TokenStream.tokens_of_items_eq (by rw [htext])
    have htexts : ts.map (fun t => t.lexeme.text) =
        (TokenStream.ofString text).tokens.map fun t => t.lexeme.text := by
      have hmap := congrArg (List.map Lexeme.text) hts
      simpa only [List.map_map, Function.comp_def, Lexeme.text_relisted] using hmap
    rw [hlisting] at htokens ⊢
    rw [listing, htokens, htexts, listing]
  have hlexemes' : tree.relisted.lexemes = ts.map Token.lexeme := by
    rw [tree.lexemes_relisted, hlexemes, hts]
  have hvalue' : tree.relisted.eval? = some (ev.value, ev.warnings) := by
    rw [tree.eval?_relisted, hvalue]
  rw [evaluate_of_items tree.relisted htext hlexemes' (tree.depth_relisted ▸ hdepth) hvalue', hrelisted]

/-- Numbers, a constant and spaces that are not written as they are listed, and a value that is NaN. -/
theorem evaluate_listing_normalized :
    ∃ ev, evaluate "007*(3. + PI)-00/0.0" = .ok ev ∧ ev.listing = "7 * ( 3 + π ) - 0 / 0" ∧
      ev.value.isNaN = true ∧ ev.warnings = [.zeroOverZero] ∧
      evaluate "7 * ( 3 + pi ) - 0 / 0" = .ok ev := by
  have hfinite : ∀ t ∈ (TokenStream.ofString "007*(3. + PI)-00/0.0").tokens,
      (match t.lexeme with
        | .number value _ => value.isFinite
        | _ => true) = true := by
    decide +kernel
  have h : evaluate "007*(3. + PI)-00/0.0" =
      .ok ⟨Binary64.nan, [.zeroOverZero], "7 * ( 3 + π ) - 0 / 0"⟩ := by
    decide +kernel
  have hagain := evaluate_listing h fun t ht value fractional hlexeme => by
    have hvalue := hfinite t ht
    rw [hlexeme] at hvalue
    exact hvalue
  exact ⟨_, h, rfl, by decide +kernel, rfl, hagain⟩

end DeskCalculator
