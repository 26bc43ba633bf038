import DeskCalculator.Proofs.Acceptance

/-!
# Texts made of texts

A text that is evaluated may be put between parentheses and used as an operand or as an argument: what
comes of the whole is what comes of its parts (`evaluate_composed`). The parentheses keep the readings
of the parts apart (`TokenStream.ReadsAs.group`), so that the tree of the whole is made of their trees;
all that the parts share is the nesting limit. A call that has no value is the error of the text that
it ends (`evaluate_of_faulty`).
-/

namespace DeskCalculator

open Beginning (join)

/-! ## Readings of the parts -/

theorem TokenStream.ReadsAs.group {cs rest : List Char} {us vs : List Lexeme} (hcs : ReadsAs cs us)
    (hrest : ReadsAs rest vs) :
    ReadsAs ('(' :: (cs ++ ')' :: rest)) (.leftParen :: (us ++ .rightParen :: vs)) :=
  .cons rfl (hcs.append (.cons rfl hrest) (by decide) (by decide))

theorem isAlpha_of_isAlpha_toLower {c : Char} (h : c.toLower.isAlpha = true) : c.isAlpha = true := by
  unfold Char.toLower at h
  split at h
  · next hupper =>
    have hc : c.isUpper = true := decide_eq_true hupper
    show (c.isUpper || c.isLower) = true
    rw [hc, Bool.true_or]
  · exact h

namespace MathFunction

theorem isAlpha_name (f : MathFunction) : f.name.toList.all Char.isAlpha = true := by
  cases f <;> decide +kernel

/-- No function has the word of a constant as its name. -/
theorem name_ne_word (f : MathFunction) :
    f.name.toList ≠ [] ∧ f.name.toList ≠ ['p', 'i'] ∧ f.name.toList ≠ ['e'] := by
  cases f <;> decide +kernel

variable {f : MathFunction} {name : String}

theorem all_isAlpha_of_toLower (h : f.name.toList = name.toList.map Char.toLower) :
    name.toList.all Char.isAlpha = true := by
  have hletters := f.isAlpha_name
  rw [h, List.all_map] at hletters
  rw [List.all_eq_true] at hletters ⊢
  intro c hc
  exact isAlpha_of_isAlpha_toLower (hletters c hc)

/-- The name of a function in any letter case is read as one name. -/
theorem oneToken_of_toLower (h : f.name.toList = name.toList.map Char.toLower) :
    TokenStream.OneToken name.toList (.name name) := by
  obtain ⟨hne, hpi, heuler⟩ := f.name_ne_word
  rw [h] at hne hpi heuler
  have hword : Lexeme.ofWord name.toList = .name name := by
    rw [Lexeme.ofWord, if_neg hpi, if_neg heuler, String.ofList_toList]
  rw [← hword]
  refine TokenStream.oneToken_word ?_ (List.all_eq_true.1 (all_isAlpha_of_toLower h))
  rintro hnil
  rw [hnil] at hne
  exact hne rfl

end MathFunction

/-! ## Nesting -/

/-- Whether no more than `n` levels are open at once in a text. -/
def NestedWithin (n : Nat) (text : String) : Prop :=
  ∀ tree : Expression, tree.lexemes = (TokenStream.ofString text).tokens.map Token.lexeme →
    tree.depth ≤ n

theorem nestedWithin_of_read? {n : Nat} {text : String}
    (h : ((Beginning.read? {} (TokenStream.ofString text).tokens).all
      fun b => decide (b.nesting ≤ n)) = true) : NestedWithin n text := by
  intro tree hlexemes
  rw [Beginning.read?_start tree hlexemes.symm, Option.all_some, decide_eq_true_eq,
    Beginning.nesting_operator, Beginning.join_split] at h
  exact h

/-! ## Texts read as a tree -/

theorem exists_readsAs_of_evaluate {text : String} {ev : Evaluation} (h : evaluate text = .ok ev) :
    ∃ tree : Expression, TokenStream.ReadsAs text.toList tree.lexemes ∧
      tree.eval? = some (ev.value, ev.warnings) := by
  obtain ⟨hreadable, tree, hlexemes, -, hvalue, -⟩ := evaluate_eq_ok_iff.1 h
  exact ⟨tree, hlexemes ▸ hreadable.readsAs, hvalue⟩

/-- The tokens of a text that is read as the lexemes of a tree, and the depth of that tree. -/
theorem exists_tokens_of_readsAs {text : String} {cs : List Char} (tree : Expression)
    (htext : text.toList = cs) (h : TokenStream.ReadsAs cs tree.lexemes)
    (hnesting : NestedWithin 256 text) :
    ∃ (ts : List Token) (n : Nat), TokenStream.ofString text = ⟨ts.map .ok, .ok n⟩ ∧
      ts.map Token.lexeme = tree.lexemes ∧ tree.depth ≤ nestingLimit := by
  obtain ⟨ts, n, hscan, hts⟩ := h 0
  rw [← htext] at hscan
  have htokens : (TokenStream.ofString text).tokens = ts :=
    TokenStream.tokens_of_items_eq (congrArg TokenStream.items hscan)
  exact ⟨ts, n, hscan, hts, hnesting tree (by rw [htokens, hts])⟩

/-- A text that is read as the lexemes of a tree is worth what the tree is worth. -/
theorem evaluate_of_readsAs {text : String} {cs : List Char} (tree : Expression) {value : Float}
    {ws : List Warning} (htext : text.toList = cs) (h : TokenStream.ReadsAs cs tree.lexemes)
    (hnesting : NestedWithin 256 text) (hvalue : tree.eval? = some (value, ws)) :
    evaluate text = .ok ⟨value, ws, listing text⟩ := by
  obtain ⟨ts, n, htokens, hts, hdepth⟩ := exists_tokens_of_readsAs tree htext h hnesting
  exact evaluate_of_items tree htokens hts.symm hdepth hvalue

/-! ## Operations on two parts -/

namespace Operator

/-- The value of an operation on the values of two texts, and its own warnings. Zero to the power zero
is NaN. -/
def eval : Operator → Float → Float → Float × List Warning
  | .sum .plus, a, b => (a + b, [])
  | .sum .minus, a, b => (a - b, [])
  | .product op, a, b => ((op.eval a b).1.value, (op.eval a b).2)

/-- The tree of an operation on two factors. -/
def tree : Operator → Factor → Factor → Expression
  | .sum op, left, right => .sum (.term (.factor left)) op (.factor right)
  | .product op, left, right => .term (.product (.factor left) op right)

theorem lexemes_tree (op : Operator) (left right : Factor) :
    (op.tree left right).lexemes = left.lexemes ++ .operator op :: right.lexemes := by
  cases op <;> rfl

theorem eval?_tree (op : Operator) {left right : Factor} {a b : Float} {wa wb : List Warning}
    (hleft : left.eval? = some (a, wa)) (hright : right.eval? = some (b, wb)) :
    (op.tree left right).eval? = some ((op.eval a b).1, wa ++ wb ++ (op.eval a b).2) := by
  rcases op with (_ | _) | op
  · simp [tree, eval, Expression.eval?, Term.eval?, hleft, hright, Product.value]
  · simp [tree, eval, Expression.eval?, Term.eval?, hleft, hright, Product.value]
  · simp [tree, eval, Expression.eval?, Term.eval?, hleft, hright]

end Operator

/-! ## Calls without a value -/

theorem Beginning.Faulty.unique {b : Beginning} {e e' : Error} (h : b.Faulty e) (h' : b.Faulty e') :
    e = e' := by
  cases h with
  | unknownFunction hname =>
    cases h' with
    | unknownFunction => rfl
    | outsideDomain hname' => cases hname.symm.trans hname'
  | outsideDomain hname hargument hvalue =>
    cases h' with
    | unknownFunction hname' => cases hname.symm.trans hname'
    | outsideDomain hname' hargument' =>
      cases hname.symm.trans hname'
      cases hargument.symm.trans hargument'
      rfl

/-- A call that has no value is the error, once it is closed within the nesting limit and what follows
can be read. -/
theorem evaluate_of_faulty {text : String} {ts : List Token} {t : Token} {b b' : Beginning} {s : State}
    {ws : List Warning} {e : Error} {next : Lookahead} (hread : Beginning.read? {} ts = some b)
    (hpush : b.push t = some b') (hnesting : b'.nesting ≤ nestingLimit)
    (hvalue : b.eval? = some (s, ws)) (hvalue' : b'.eval? = none) (hfaulty : b.Faulty e)
    (hts : StartsWith (TokenStream.ofString text).reading (ts ++ [t]))
    (hnext : (TokenStream.ofString text).reading (ts.length + 1) = .ok next) :
    evaluate text = .error e := by
  have hnesting₁ : b.nesting ≤ nestingLimit :=
    Nat.le_trans (Beginning.nesting_le_of_push hpush) hnesting
  obtain ⟨hts, htoken⟩ := startsWith_concat.1 hts
  obtain ⟨p, q, journal, hstart, hreaches, -, hcurrent, hrest⟩ :=
    exists_reaches_of_read? hread hvalue hnesting₁ hts htoken
  obtain ⟨move, hplan, hresult, hperform⟩ := Beginning.exists_plan_eq_ok hvalue hpush
    ((Beginning.not_blocked_iff hvalue hpush hnesting₁).2 hnesting)
  have hstep := Parser.step_of_readable hcurrent hplan ((hrest 1).trans hnext)
  -- the move cannot be carried out, for else the beginning with the token would have a value
  rcases hmove : move.perform with e' | effect
  · obtain rfl := hfaulty.unique (hperform e' hmove).2
    rw [hmove] at hstep
    rw [evaluate_of_reaches hstart hreaches hstep]
    rfl
  · rw [hvalue', Beginning.result?, hmove] at hresult
    cases hresult

/-- A text that is a call without a value is refused for its argument. -/
theorem evaluate_of_outsideDomain {text name : String} {cs : List Char} {argument : Expression}
    {f : MathFunction} {x : Float} {ws : List Warning} (htext : text.toList = cs)
    (h : TokenStream.ReadsAs cs (Factor.call name argument).lexemes)
    (hnesting : NestedWithin 256 text) (hname : MathFunction.ofName? name = some f)
    (hargument : argument.eval? = some (x, ws)) (hvalue : f.valueAt? x = none) :
    evaluate text = .error (.outsideDomain f x) := by
  let call : Term := .factor (.call name argument)
  obtain ⟨us, n, htokens, hus, hdepth⟩ :
      ∃ (us : List Token) (n : Nat), TokenStream.ofString text = ⟨us.map .ok, .ok n⟩ ∧
        us.map Token.lexeme = call.lexemes ∧ call.depth ≤ nestingLimit :=
    exists_tokens_of_readsAs (.term call) htext h hnesting
  have hitems : (TokenStream.ofString text).items = us.map .ok := congrArg TokenStream.items htokens
  have hstop : (TokenStream.ofString text).stop = .ok n := congrArg TokenStream.stop htokens
  have hend := TokenStream.reading_length hitems
  obtain ⟨t, ts, closing, rfl, -, hclosing, hread⟩ := Beginning.exists_read?_call hus
  rw [hstop, List.length_append, List.length_singleton] at hend
  have hpush : Beginning.push
      ⟨[({}, .call name t.position)], .operator argument.split.1 argument.split.2⟩ closing =
      some ⟨[], .operator none call⟩ := by
    simp only [Beginning.push, hclosing, Beginning.join_split]
    rfl
  have hinner : (join argument.split.1 argument.split.2).eval? = some (x, ws) := by
    rw [Beginning.join_split, hargument]
  obtain ⟨⟨s, ws₁⟩, hs⟩ : ∃ r, Beginning.eval?
      ⟨[({}, .call name t.position)], .operator argument.split.1 argument.split.2⟩ = some r := by
    rw [← Option.ne_none_iff_exists', Ne, Beginning.eval?_operator_eq_none, hinner]
    rintro (h | h) <;> cases h
  refine evaluate_of_faulty (hread [] {}) hpush ?_ hs ?_ (.outsideDomain hname hinner hvalue)
    (TokenStream.startsWith_reading hitems) hend
  · rw [Beginning.nesting_operator]
    exact hdepth
  · rw [Beginning.eval?_operator_eq_none, join, Expression.eval?, Term.eval?, Factor.eval?, hargument]
    exact .inr (by simp [hname, hvalue])

/-! ## Composition -/

/-- A text that is evaluated is worth the same between parentheses and the opposite behind a minus sign,
with its warnings. Two such texts are worth what the operation on their values is, which reports after
them; a call is worth the value of its function, or is refused for its argument. All that may stand in
the way is the nesting of the whole. -/
theorem evaluate_composed {a : String} {va : Evaluation} (ha : evaluate a = .ok va) :
    (NestedWithin 256 ("(" ++ a ++ ")") →
      evaluate ("(" ++ a ++ ")") = .ok ⟨va.value, va.warnings, listing ("(" ++ a ++ ")")⟩) ∧
    (NestedWithin 256 ("-(" ++ a ++ ")") →
      evaluate ("-(" ++ a ++ ")") = .ok ⟨-va.value, va.warnings, listing ("-(" ++ a ++ ")")⟩) ∧
    (∀ (b : String) (vb : Evaluation), evaluate b = .ok vb → ∀ (op : Operator) (text : String),
      text = "(" ++ a ++ ")" ++ String.ofList [op.symbol] ++ "(" ++ b ++ ")" →
      NestedWithin 256 text →
        evaluate text = .ok ⟨(op.eval va.value vb.value).1,
          va.warnings ++ vb.warnings ++ (op.eval va.value vb.value).2, listing text⟩) ∧
    (∀ (f : MathFunction) (name : String), f.name.toList = name.toList.map Char.toLower →
      ∀ text, text = name ++ "(" ++ a ++ ")" → NestedWithin 256 text →
        evaluate text =
          match f.valueAt? va.value with
          | some value => .ok ⟨value, va.warnings, listing text⟩
          | none => .error (.outsideDomain f va.value)) := by
  obtain ⟨tree, hreads, hvalue⟩ := exists_readsAs_of_evaluate ha
  have hgroup : TokenStream.ReadsAs ('(' :: (a.toList ++ [')'])) (Factor.group tree).lexemes :=
    hreads.group TokenStream.readsAs_nil
  refine ⟨fun hnesting => ?_, fun hnesting => ?_, ?_, ?_⟩
  · refine evaluate_of_readsAs (.term (.factor (.group tree))) (by simp) hgroup hnesting ?_
    simp [Expression.eval?, Term.eval?, Factor.eval?, hvalue, Product.value]
  · refine evaluate_of_readsAs (.term (.factor (.negation (.group tree)))) (by simp)
      (hgroup.cons (c := '-') rfl) hnesting ?_
    simp [Expression.eval?, Term.eval?, Factor.eval?, hvalue, Product.value]
  · rintro b vb hb op text rfl hnesting
    obtain ⟨tree', hreads', hvalue'⟩ := exists_readsAs_of_evaluate hb
    have hgroup' := (hreads'.group TokenStream.readsAs_nil).cons (Lexeme.ofSymbol?_symbol op)
    have hboth : TokenStream.ReadsAs
        ('(' :: (a.toList ++ ')' :: op.symbol :: '(' :: (b.toList ++ [')'])))
        (op.tree (.group tree) (.group tree')).lexemes := by
      rw [op.lexemes_tree]
      simpa [Factor.lexemes] using hreads.group hgroup'
    exact evaluate_of_readsAs _ (by simp) hboth hnesting (op.eval?_tree hvalue hvalue')
  · rintro f name hname text rfl hnesting
    have hcall : TokenStream.ReadsAs (name.toList ++ '(' :: (a.toList ++ [')']))
        (Factor.call name tree).lexemes :=
      (MathFunction.oneToken_of_toLower hname).readsAs.append hgroup (by decide) (by decide)
    have hf : MathFunction.ofName? name = some f :=
      (MathFunction.ofName?_eq_some_iff (MathFunction.all_isAlpha_of_toLower hname) f).2 hname
    rcases hat : f.valueAt? va.value with _ | value
    · exact evaluate_of_outsideDomain (by simp) hcall hnesting hf hvalue hat
    · refine evaluate_of_readsAs (.term (.factor (.call name tree))) (by simp) hcall hnesting ?_
      simp [Expression.eval?, Term.eval?, Factor.eval?, hvalue, hf, hat, Product.value]

/-- A part that divides by zero: its warning stands before that of the division it is put in, and its
value is an argument that a square root refuses. -/
theorem evaluate_composed_infinite :
    evaluate " -1/0 " = .ok ⟨-1 / 0, [.divisionByZero (-1)], "- 1 / 0"⟩ ∧
    evaluate "( -1/0 )" = .ok ⟨-1 / 0, [.divisionByZero (-1)], "( - 1 / 0 )"⟩ ∧
    evaluate "-( -1/0 )" = .ok ⟨1 / 0, [.divisionByZero (-1)], "- ( - 1 / 0 )"⟩ ∧
    evaluate "( -1/0 )/(0)" =
      .ok ⟨-1 / 0, [.divisionByZero (-1), .divisionByZero (-1 / 0)], "( - 1 / 0 ) / ( 0 )"⟩ ∧
    evaluate "SqRt( -1/0 )" = .error (.outsideDomain .sqrt (-1 / 0)) := by
  have ha : evaluate " -1/0 " = .ok ⟨-1 / 0, [.divisionByZero (-1)], "- 1 / 0"⟩ := by
    decide +kernel
  have hb : evaluate "0" = .ok ⟨0, [], "0"⟩ := by decide +kernel
  obtain ⟨hgroup, hnegation, hoperation, hcall⟩ := evaluate_composed ha
  refine ⟨ha, ?_, ?_, ?_, ?_⟩
  · rw [show "( -1/0 )" = "(" ++ " -1/0 " ++ ")" from rfl,
      hgroup (nestedWithin_of_read? (by decide +kernel))]
    decide +kernel
  · rw [show "-( -1/0 )" = "-(" ++ " -1/0 " ++ ")" from rfl,
      hnegation (nestedWithin_of_read? (by decide +kernel))]
    decide +kernel
  · rw [hoperation "0" _ hb (.product .over) "( -1/0 )/(0)" (by decide +kernel)
      (nestedWithin_of_read? (by decide +kernel))]
    decide +kernel
  · rw [hcall .sqrt "SqRt" (by decide +kernel) "SqRt( -1/0 )" (by decide +kernel)
      (nestedWithin_of_read? (by decide +kernel))]
    decide +kernel

end DeskCalculator
