import DeskCalculator.Proofs.Acceptance
import DeskCalculator.Proofs.Words

/-!
# Zero to the power zero

Where zero is raised to the power zero, the term in which this happens is void from there on
(`Term.Voided`), and a warning is given for each such term and for nothing else. A void term is worth
NaN, and NaN goes through all operations but the power, through signs, parentheses and all functions.
So unless the void term stands inside an operand of a power, at whatever depth, the whole is worth NaN
(`evaluate_voided`).
-/

namespace DeskCalculator

/-! ## The terms of an expression -/

mutual

/-- The terms of an expression at any depth, but for those inside the operands of the operators that
`hides` names. The left operand of an operator is all of its term before it. -/
def Expression.terms (hides : ProductOp → Bool) : Expression → List Term
  | .term t => t :: t.inner hides
  | .sum left _ right => left.terms hides ++ right :: right.inner hides

/-- The terms inside a term, at any depth. -/
def Term.inner (hides : ProductOp → Bool) : Term → List Term
  | .factor f => f.inner hides
  | .product left op right => if hides op then [] else left.inner hides ++ right.inner hides

/-- The terms inside a factor, at any depth. -/
def Factor.inner (hides : ProductOp → Bool) : Factor → List Term
  | .number _ _ => []
  | .constant _ => []
  | .call _ argument => argument.terms hides
  | .group e => e.terms hides
  | .negation operand => operand.inner hides

end

/-- Zero is raised to the power zero in a term itself. What follows in the term does not matter. -/
inductive Term.Voided : Term → Prop
  | power {left : Term} {right : Factor} {x y : Float} {ws ws' : List Warning}
      (hleft : left.eval? = some (.live x, ws)) (hright : right.eval? = some (y, ws'))
      (hx : (x == 0.0) = true) (hy : (y == 0.0) = true) : Voided (.product left .power right)
  | product {left : Term} (hleft : left.Voided) (op : ProductOp) (right : Factor) :
      Voided (.product left op right)

namespace Term

theorem Voided.eval?_eq {t : Term} {p : Product} {ws : List Warning} (h : t.Voided)
    (ht : t.eval? = some (p, ws)) : p = .void := by
  induction h generalizing p ws with
  | power hleft hright hx hy =>
    rw [eval?, hleft, hright] at ht
    simp only [Option.bind_eq_bind, Option.bind_some, ProductOp.eval, hx, hy, Bool.and_self, if_true,
      Option.some.injEq, Prod.mk.injEq] at ht
    exact ht.1.symm
  | @product left hleft op right ih =>
    rw [eval?_product] at ht
    obtain ⟨⟨q, ws₁⟩, hq, ht⟩ := Option.bind_eq_some_iff.1 ht
    obtain ⟨⟨y, ws₂⟩, -, ht⟩ := Option.bind_eq_some_iff.1 ht
    cases ih hq
    cases ht
    rfl

theorem voided_product_iff {left : Term} {op : ProductOp} {right : Factor} {p : Product} {y : Float}
    {ws ws' : List Warning} (hleft : left.eval? = some (p, ws)) (hright : right.eval? = some (y, ws')) :
    (Term.product left op right).Voided ↔ left.Voided ∨
      op = .power ∧ ∃ x, p = .live x ∧ (x == 0.0) = true ∧ (y == 0.0) = true := by
  constructor
  · intro h
    cases h with
    | power hleft' hright' hx hy =>
      cases hleft.symm.trans hleft'
      cases hright.symm.trans hright'
      exact .inr ⟨rfl, _, rfl, hx, hy⟩
    | product hvoided => exact .inl hvoided
  · rintro (hvoided | ⟨rfl, x, rfl, hx, hy⟩)
    · exact .product hvoided op right
    · exact .power hleft hright hx hy

end Term

/-! ## The warnings -/

theorem ProductOp.zeroToTheZero_mem_eval {op : ProductOp} {x y : Float} :
    .zeroToTheZero ∈ (op.eval x y).2 ↔ op = .power ∧ (x == 0.0) = true ∧ (y == 0.0) = true := by
  rcases op with _ | _ | _ | _
  · simp [eval]
  · by_cases hy : y == 0.0 <;> by_cases hx : x == 0.0 <;> simp [eval, hx, hy]
  · simp [eval]
  · by_cases h : (x == 0.0 && y == 0.0) = true
    · have hxy := Bool.and_eq_true_iff.1 h
      simp [eval, hxy]
    · have hxy : ¬ ((x == 0.0) = true ∧ (y == 0.0) = true) := by rwa [← Bool.and_eq_true_iff]
      by_cases h' : (x == 0.0 && y == -1.0) = true <;> simp [eval, h, h', hxy]

mutual

/-- The warnings tell of zero to the power zero exactly when it happens in a term. -/
theorem Expression.zeroToTheZero_mem_iff (e : Expression) {value : Float} {ws : List Warning}
    (h : e.eval? = some (value, ws)) :
    .zeroToTheZero ∈ ws ↔ ∃ t ∈ e.terms fun _ => false, t.Voided := by
  cases e with
  | term t =>
    obtain ⟨⟨p, ws'⟩, ht, h⟩ := Option.bind_eq_some_iff.1 h
    cases h
    rw [Expression.terms, List.exists_mem_cons_iff]
    exact t.zeroToTheZero_mem_iff ht
  | sum left op right =>
    rw [Expression.eval?] at h
    obtain ⟨⟨x, ws₁⟩, hleft, h⟩ := Option.bind_eq_some_iff.1 h
    obtain ⟨⟨p, ws₂⟩, hright, h⟩ := Option.bind_eq_some_iff.1 h
    have hws : ws = ws₁ ++ ws₂ := by cases op <;> cases h <;> rfl
    rw [hws, Expression.terms, List.mem_append, left.zeroToTheZero_mem_iff hleft,
      right.zeroToTheZero_mem_iff hright]
    simp only [List.mem_append, List.mem_cons, or_and_right, exists_or, exists_eq_left]

theorem Term.zeroToTheZero_mem_iff (t : Term) {p : Product} {ws : List Warning}
    (h : t.eval? = some (p, ws)) :
    .zeroToTheZero ∈ ws ↔ t.Voided ∨ ∃ u ∈ t.inner fun _ => false, u.Voided := by
  cases t with
  | factor f =>
    obtain ⟨⟨x, ws'⟩, hf, h⟩ := Option.bind_eq_some_iff.1 h
    cases h
    have hvoided : ¬ (Term.factor f).Voided := by
      intro hvoided
      cases hvoided
    rw [Term.inner, f.zeroToTheZero_mem_iff hf, or_iff_right hvoided]
  | product left op right =>
    rw [Term.eval?_product] at h
    obtain ⟨⟨q, ws₁⟩, hleft, h⟩ := Option.bind_eq_some_iff.1 h
    obtain ⟨⟨y, ws₂⟩, hright, h⟩ := Option.bind_eq_some_iff.1 h
    cases h
    have hown : .zeroToTheZero ∈ (q.warning? op y).toList ↔
        op = .power ∧ ∃ x, q = .live x ∧ (x == 0.0) = true ∧ (y == 0.0) = true := by
      cases q with
      | live x =>
        rw [(op.fold_eq_eval x y).2, ProductOp.zeroToTheZero_mem_eval]
        simp
      | void => simp [Product.warning?]
    rw [List.mem_append, List.mem_append, left.zeroToTheZero_mem_iff hleft,
      right.zeroToTheZero_mem_iff hright, hown, Term.voided_product_iff hleft hright, Term.inner]
    simp only [Bool.false_eq_true, if_false, List.mem_append, or_and_right, exists_or]
    rw [or_right_comm, or_right_comm (a := left.Voided), or_assoc]

theorem Factor.zeroToTheZero_mem_iff (f : Factor) {value : Float} {ws : List Warning}
    (h : f.eval? = some (value, ws)) :
    .zeroToTheZero ∈ ws ↔ ∃ t ∈ f.inner fun _ => false, t.Voided := by
  cases f with
  | number value fractional =>
    cases h
    simp [Factor.inner]
  | constant c =>
    cases h
    simp [Factor.inner]
  | call name argument =>
    obtain ⟨⟨x, ws'⟩, hargument, h⟩ := Option.bind_eq_some_iff.1 h
    obtain ⟨g, -, h⟩ := Option.bind_eq_some_iff.1 h
    obtain ⟨y, -, h⟩ := Option.bind_eq_some_iff.1 h
    cases h
    exact argument.zeroToTheZero_mem_iff hargument
  | group e => exact e.zeroToTheZero_mem_iff h
  | negation operand =>
    obtain ⟨⟨x, ws'⟩, hoperand, h⟩ := Option.bind_eq_some_iff.1 h
    cases h
    exact operand.zeroToTheZero_mem_iff hoperand

end

/-! ## NaN -/

theorem MathFunction.valueAt?_nan (f : MathFunction) :
    f.valueAt? Binary64.nan = some Binary64.nan := by
  cases f <;> decide +kernel

/-- All operations on two factors but the power keep NaN. -/
theorem ProductOp.eval_nan {op : ProductOp} (h : op ≠ .power) (x : Float) :
    (op.eval Binary64.nan x).1 = .live Binary64.nan ∧
      (op.eval x Binary64.nan).1 = .live Binary64.nan := by
  rcases op with _ | _ | _ | _
  · exact ⟨congrArg _ (Binary64.mul_nan x).1, congrArg _ (Binary64.mul_nan x).2⟩
  · exact ⟨congrArg _ (Binary64.div_nan x).1, congrArg _ (Binary64.div_nan x).2⟩
  · exact ⟨congrArg _ (Binary64.remainder_nan x).1, congrArg _ (Binary64.remainder_nan x).2⟩
  · exact absurd rfl h

/-- A product that is NaN or void stays so, and one that meets NaN becomes so. -/
theorem Product.value_fold {p : Product} {op : ProductOp} {y : Float} (hop : op ≠ .power)
    (h : p.value = Binary64.nan ∨ y = Binary64.nan) : (p.fold op y).value = Binary64.nan := by
  cases p with
  | live x =>
    rw [(op.fold_eq_eval x y).1]
    rcases h with rfl | rfl
    · rw [(ProductOp.eval_nan hop y).1]
      rfl
    · rw [(ProductOp.eval_nan hop x).2]
      rfl
  | void => rfl

mutual

/-- An expression with a void term that no power hides is NaN. -/
theorem Expression.eq_nan_of_voided (e : Expression) {value : Float} {ws : List Warning}
    (h : e.eval? = some (value, ws)) {t : Term} (ht : t ∈ e.terms (· = .power)) (hvoided : t.Voided) :
    value = Binary64.nan := by
  cases e with
  | term u =>
    obtain ⟨⟨p, ws'⟩, hu, h⟩ := Option.bind_eq_some_iff.1 h
    cases h
    exact u.value_eq_nan_of_voided hu (List.mem_cons.1 ht) hvoided
  | sum left op right =>
    rw [Expression.eval?] at h
    obtain ⟨⟨x, ws₁⟩, hleft, h⟩ := Option.bind_eq_some_iff.1 h
    obtain ⟨⟨p, ws₂⟩, hright, h⟩ := Option.bind_eq_some_iff.1 h
    rw [Expression.terms, List.mem_append, List.mem_cons] at ht
    rcases ht with ht | ht
    · have hx := left.eq_nan_of_voided hleft ht hvoided
      subst hx
      cases op with
      | plus => cases h; exact (Binary64.add_nan _).1
      | minus => cases h; exact (Binary64.sub_nan _).1
    · have hp := right.value_eq_nan_of_voided hright ht hvoided
      cases op with
      | plus => cases h; rw [hp]; exact (Binary64.add_nan _).2
      | minus => cases h; rw [hp]; exact (Binary64.sub_nan _).2

theorem Term.value_eq_nan_of_voided (u : Term) {p : Product} {ws : List Warning}
    (h : u.eval? = some (p, ws)) {t : Term} (ht : t = u ∨ t ∈ u.inner (· = .power))
    (hvoided : t.Voided) : p.value = Binary64.nan := by
  rcases ht with rfl | ht
  · rw [hvoided.eval?_eq h]
    rfl
  cases u with
  | factor f =>
    obtain ⟨⟨x, ws'⟩, hf, h⟩ := Option.bind_eq_some_iff.1 h
    cases h
    exact f.eq_nan_of_voided hf ht hvoided
  | product left op right =>
    rw [Term.eval?_product] at h
    obtain ⟨⟨q, ws₁⟩, hleft, h⟩ := Option.bind_eq_some_iff.1 h
    obtain ⟨⟨y, ws₂⟩, hright, h⟩ := Option.bind_eq_some_iff.1 h
    cases h
    rw [Term.inner] at ht
    -- a power would have hidden the term
    by_cases hop : op = .power
    · rw [if_pos (decide_eq_true hop)] at ht
      cases ht
    rw [if_neg (by simpa using hop), List.mem_append] at ht
    refine Product.value_fold hop (ht.imp (fun ht => ?_) fun ht => ?_)
    · exact left.value_eq_nan_of_voided hleft (.inr ht) hvoided
    · exact right.eq_nan_of_voided hright ht hvoided

theorem Factor.eq_nan_of_voided (f : Factor) {value : Float} {ws : List Warning}
    (h : f.eval? = some (value, ws)) {t : Term} (ht : t ∈ f.inner (· = .power)) (hvoided : t.Voided) :
    value = Binary64.nan := by
  cases f with
  | number value fractional => cases ht
  | constant c => cases ht
  | call name argument =>
    obtain ⟨⟨x, ws'⟩, hargument, h⟩ := Option.bind_eq_some_iff.1 h
    obtain ⟨g, -, h⟩ := Option.bind_eq_some_iff.1 h
    obtain ⟨y, hy, h⟩ := Option.bind_eq_some_iff.1 h
    cases h
    rw [argument.eq_nan_of_voided hargument ht hvoided, g.valueAt?_nan] at hy
    exact (Option.some.inj hy).symm
  | group e => exact e.eq_nan_of_voided h ht hvoided
  | negation operand =>
    obtain ⟨⟨x, ws'⟩, hoperand, h⟩ := Option.bind_eq_some_iff.1 h
    cases h
    rw [operand.eq_nan_of_voided hoperand ht hvoided]
    exact Binary64.neg_nan

end

/-! ## Texts -/

/-- A text reports zero to the power zero exactly when it happens in one of its terms; and then, unless
that term stands inside an operand of a power of a term around it, the value of the text is NaN. -/
theorem evaluate_voided {text : String} {ev : Evaluation} {tree : Expression}
    (h : evaluate text = .ok ev)
    (hlexemes : tree.lexemes = (TokenStream.ofString text).tokens.map Token.lexeme) :
    (.zeroToTheZero ∈ ev.warnings ↔ ∃ t ∈ tree.terms fun _ => false, t.Voided) ∧
      ∀ t ∈ tree.terms (· = .power), t.Voided → ev.value.isNaN = true := by
  obtain ⟨-, tree', hlexemes', -, hvalue, -⟩ := evaluate_eq_ok_iff.1 h
  obtain rfl := Expression.lexemes_injective (hlexemes.trans hlexemes'.symm)
  refine ⟨tree.zeroToTheZero_mem_iff hvalue, fun t ht hvoided => ?_⟩
  exact Binary64.isNaN_iff_eq_nan.2 (tree.eq_nan_of_voided hvalue ht hvoided)

/-- A void term with a division after its power, inside a group, a sign, a call and a remainder. -/
theorem evaluate_voided_inside : ∃ ev, evaluate "1 + sgn(-(2*0^0/0)) % 3" = .ok ev ∧
    .zeroToTheZero ∈ ev.warnings ∧ ev.value.isNaN = true := by
  let zero : Factor := .number 0 false
  let product : Term := .product (.factor (.number 2 false)) .times zero
  let t : Term := .product (.product product .power zero) .over zero
  let tree : Expression := .sum (.term (.factor (.number 1 false))) .plus
    (.product (.factor (.call "sgn" (.term (.factor (.negation (.group (.term t))))))) .modulo
      (.number 3 false))
  have h : evaluate "1 + sgn(-(2*0^0/0)) % 3" =
      .ok ⟨Binary64.nan, [.zeroToTheZero], "1 + sgn ( - ( 2 * 0 ^ 0 / 0 ) ) % 3"⟩ := by
    decide +kernel
  have hlexemes : tree.lexemes =
      (TokenStream.ofString "1 + sgn(-(2*0^0/0)) % 3").tokens.map Token.lexeme := by
    decide +kernel
  have hproduct : product.eval? = some (.live 0, []) := by decide +kernel
  have hzero : ((0 : Float) == 0.0) = true := by decide +kernel
  have hvoided : t.Voided := .product (.power hproduct rfl hzero hzero) .over zero
  have ht (hides : ProductOp → Bool) (hmodulo : hides .modulo = false) : t ∈ tree.terms hides := by
    simp [tree, Expression.terms, Term.inner, Factor.inner, hmodulo]
  obtain ⟨hwarning, hnan⟩ := evaluate_voided h hlexemes
  exact ⟨_, h, hwarning.2 ⟨t, ht _ rfl, hvoided⟩, hnan t (ht _ rfl) hvoided⟩

end DeskCalculator
