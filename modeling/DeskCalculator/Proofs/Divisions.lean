import DeskCalculator.Proofs.Acceptance
import DeskCalculator.Proofs.Words

/-!
# Division by zero

The warnings of a tree are what its operations report, in order (`Expression.warnings_eq`). A division by
zero is reported by one of two warnings: one if the numerator is a zero as well, and otherwise one that
names the numerator; these two are told of nothing else (`Operation.filter_warning?`). The quotient is
kept. It is infinite if the numerator is a number other than zero; but a numerator that is NaN is named
like a number, and its quotient is NaN (`evaluate_divisions`).
-/

namespace DeskCalculator

/-! ## Operations -/

/-- An operator of a term with its operands: all of the term before it, and the factor behind it. -/
structure Operation where
  left : Term
  op : ProductOp
  right : Factor

mutual

/-- The operations in an expression, at any depth, in the order in which they end. -/
def Expression.operations : Expression → List Operation
  | .term t => t.operations
  | .sum left _ right => left.operations ++ right.operations

/-- The operations in a term. -/
def Term.operations : Term → List Operation
  | .factor f => f.operations
  | .product left op right => left.operations ++ right.operations ++ [⟨left, op, right⟩]

/-- The operations in a factor. -/
def Factor.operations : Factor → List Operation
  | .number _ _ => []
  | .constant _ => []
  | .call _ argument => argument.operations
  | .group inner => inner.operations
  | .negation operand => operand.operations

end

namespace Operation

/-- The part of its term that ends with an operation. -/
def term (o : Operation) : Term :=
  .product o.left o.op o.right

/-- The two numbers on which an operation is carried out. In a void term it is not. -/
def operands? (o : Operation) : Option (Float × Float) :=
  match o.left.eval?, o.right.eval? with
  | some (.live a, _), some (b, _) => some (a, b)
  | _, _ => none

/-- The numerator of a division by zero. -/
def overZero? (o : Operation) : Option Float :=
  match o.op, o.operands? with
  | .over, some (a, b) => if b == 0.0 then some a else none
  | _, _ => none

theorem operands?_eq_some_iff {o : Operation} {a b : Float} :
    o.operands? = some (a, b) ↔
      (∃ ws, o.left.eval? = some (.live a, ws)) ∧ ∃ ws, o.right.eval? = some (b, ws) := by
  rw [operands?]
  rcases o.left.eval? with _ | ⟨_ | _, ws⟩ <;> rcases o.right.eval? with _ | ⟨b', ws'⟩ <;> simp

theorem overZero?_eq_some_iff {o : Operation} {a : Float} :
    o.overZero? = some a ↔ o.op = .over ∧ ∃ b, o.operands? = some (a, b) ∧ (b == 0.0) = true := by
  obtain ⟨left, op, right⟩ := o
  rw [overZero?]
  rcases op with _ | _ | _ | _ <;> rcases operands? _ with _ | ⟨a', b⟩ <;> simp [and_comm]

/-- The quotient of a division by zero is kept. It is no longer a finite number. -/
theorem exists_quotient {o : Operation} {a : Float} (h : o.overZero? = some a) :
    ∃ quotient ws, o.term.eval? = some (.live quotient, ws) ∧
      (quotient.isInf = true ↔ ¬ ((a == 0.0) = true ∨ a.isNaN = true)) ∧
        (quotient.isNaN = true ↔ (a == 0.0) = true ∨ a.isNaN = true) := by
  obtain ⟨hop, b, hoperands, hb⟩ := overZero?_eq_some_iff.1 h
  obtain ⟨⟨ws, hleft⟩, ws', hright⟩ := operands?_eq_some_iff.1 hoperands
  refine ⟨a / b, ws ++ ws' ++ ((Product.live a).warning? .over b).toList, ?_,
    Binary64.isInf_div_of_zero hb, Binary64.isNaN_div_of_zero hb⟩
  rw [term, Term.eval?_product, hleft, hright, hop]
  exact congrArg (fun p => some (p, _)) (ProductOp.fold_eq_eval .over a b).1

end Operation

/-! ## Warnings -/

/-- What an operation reports when it is carried out. -/
def Operation.warning? (o : Operation) : Option Warning :=
  o.operands?.bind fun (a, b) => o.op.warning? a b

theorem Operation.warning?_eq {o : Operation} {p : Product} {y : Float} {ws ws' : List Warning}
    (hleft : o.left.eval? = some (p, ws)) (hright : o.right.eval? = some (y, ws')) :
    o.warning? = p.warning? o.op y := by
  rw [warning?, operands?, hleft, hright]
  cases p <;> rfl

mutual

/-- The warnings of an expression are what its operations report, in order. -/
theorem Expression.warnings_eq (e : Expression) {value : Float} {ws : List Warning}
    (h : e.eval? = some (value, ws)) : ws = e.operations.filterMap Operation.warning? := by
  cases e with
  | term t =>
    obtain ⟨⟨p, ws'⟩, ht, h⟩ := Option.bind_eq_some_iff.1 h
    cases h
    exact t.warnings_eq ht
  | sum left op right =>
    rw [Expression.eval?] at h
    obtain ⟨⟨x, ws₁⟩, hleft, h⟩ := Option.bind_eq_some_iff.1 h
    obtain ⟨⟨p, ws₂⟩, hright, h⟩ := Option.bind_eq_some_iff.1 h
    have hws : ws = ws₁ ++ ws₂ := by cases op <;> cases h <;> rfl
    rw [hws, Expression.operations, List.filterMap_append, ← left.warnings_eq hleft,
      ← right.warnings_eq hright]

theorem Term.warnings_eq (t : Term) {p : Product} {ws : List Warning}
    (h : t.eval? = some (p, ws)) : ws = t.operations.filterMap Operation.warning? := by
  cases t with
  | factor f =>
    obtain ⟨⟨x, ws'⟩, hf, h⟩ := Option.bind_eq_some_iff.1 h
    cases h
    exact f.warnings_eq hf
  | product left op right =>
    rw [Term.eval?_product] at h
    obtain ⟨⟨q, ws₁⟩, hleft, h⟩ := Option.bind_eq_some_iff.1 h
    obtain ⟨⟨y, ws₂⟩, hright, h⟩ := Option.bind_eq_some_iff.1 h
    cases h
    have hown : (⟨left, op, right⟩ : Operation).warning? = q.warning? op y :=
      Operation.warning?_eq hleft hright
    rw [Term.operations, List.filterMap_append, List.filterMap_append, ← left.warnings_eq hleft,
      ← right.warnings_eq hright, List.filterMap_cons, hown]
    cases q.warning? op y <;> rfl

theorem Factor.warnings_eq (f : Factor) {value : Float} {ws : List Warning}
    (h : f.eval? = some (value, ws)) : ws = f.operations.filterMap Operation.warning? := by
  cases f with
  | number value fractional =>
    cases h
    rfl
  | constant c =>
    cases h
    rfl
  | call name argument =>
    obtain ⟨⟨x, ws'⟩, hargument, h⟩ := Option.bind_eq_some_iff.1 h
    obtain ⟨g, -, h⟩ := Option.bind_eq_some_iff.1 h
    obtain ⟨y, -, h⟩ := Option.bind_eq_some_iff.1 h
    cases h
    exact argument.warnings_eq hargument
  | group e => exact e.warnings_eq h
  | negation operand =>
    obtain ⟨⟨x, ws'⟩, hoperand, h⟩ := Option.bind_eq_some_iff.1 h
    cases h
    exact operand.warnings_eq hoperand

end

/-- Whether a warning tells of a division. -/
def Warning.isDivision : Warning → Bool
  | .zeroOverZero => true
  | .divisionByZero _ => true
  | _ => false

/-- The warning of a division of a number by zero. -/
def Warning.ofOverZero (numerator : Float) : Warning :=
  if numerator == 0.0 then .zeroOverZero else .divisionByZero numerator

/-- Divisions by zero are all that is reported as a division. -/
theorem Operation.filter_warning? (o : Operation) :
    o.warning?.filter Warning.isDivision = o.overZero?.map Warning.ofOverZero := by
  obtain ⟨left, op, right⟩ := o
  rw [warning?, overZero?]
  rcases operands? _ with _ | ⟨a, b⟩
  · cases op <;> rfl
  show (op.warning? a b).filter Warning.isDivision = _
  rcases op with _ | _ | _ | _
  · rfl
  · by_cases hb : (b == 0.0) = true
    · by_cases ha : (a == 0.0) = true <;>
        simp [ProductOp.warning?, Warning.ofOverZero, Warning.isDivision, ha, hb]
    · simp [ProductOp.warning?, hb]
  · rfl
  · rw [ProductOp.warning?]
    split
    · rfl
    · split <;> rfl

theorem Expression.filter_warnings {e : Expression} {value : Float} {ws : List Warning}
    (h : e.eval? = some (value, ws)) :
    ws.filter Warning.isDivision =
      (e.operations.filterMap Operation.overZero?).map Warning.ofOverZero := by
  rw [e.warnings_eq h, List.filter_filterMap, List.map_filterMap]
  exact congrArg (e.operations.filterMap ·) (funext Operation.filter_warning?)

/-! ## Texts -/

/-- The warnings of a text that tell of divisions are one for each division by a zero of either sign that
is carried out, in order. A numerator that is named is not zero. The quotient is kept: it is infinite,
unless the numerator is NaN, and then it is NaN too. -/
theorem evaluate_divisions {text : String} {ev : Evaluation} {tree : Expression}
    (h : evaluate text = .ok ev)
    (hlexemes : tree.lexemes = (TokenStream.ofString text).tokens.map Token.lexeme) :
    ev.warnings.filter Warning.isDivision =
        (tree.operations.filterMap Operation.overZero?).map Warning.ofOverZero ∧
      ∀ numerator, .divisionByZero numerator ∈ ev.warnings → (numerator == 0.0) = false ∧
        ∃ o ∈ tree.operations, o.overZero? = some numerator ∧
          ∃ quotient ws, o.term.eval? = some (.live quotient, ws) ∧
            quotient.isInf = !numerator.isNaN ∧ quotient.isNaN = numerator.isNaN := by
  obtain ⟨-, tree', hlexemes', -, hvalue, -⟩ := evaluate_eq_ok_iff.1 h
  obtain rfl := Expression.lexemes_injective (hlexemes.trans hlexemes'.symm)
  have hwarnings := Expression.filter_warnings hvalue
  refine ⟨hwarnings, fun numerator hmem => ?_⟩
  have hmem := List.mem_filter.2 ⟨hmem, (rfl : Warning.isDivision (.divisionByZero numerator) = true)⟩
  rw [hwarnings, List.mem_map] at hmem
  obtain ⟨a, ha, hwarning⟩ := hmem
  rw [Warning.ofOverZero] at hwarning
  split at hwarning
  · cases hwarning
  next hzero =>
  cases hwarning
  obtain ⟨o, ho, hover⟩ := List.mem_filterMap.1 ha
  obtain ⟨quotient, ws, hterm, hinf, hnan⟩ := Operation.exists_quotient hover
  rw [or_iff_right hzero] at hinf hnan
  have hinf : quotient.isInf = !numerator.isNaN := by
    rw [Bool.eq_iff_iff, hinf, Bool.not_eq_true, Bool.not_eq_true']
  exact ⟨eq_false_of_ne_true hzero, o, ho, hover, quotient, ws, hterm, hinf, Bool.eq_iff_iff.2 hnan⟩

/-- Zeros of both signs, and a numerator that is NaN beside one that is a number. -/
theorem evaluate_divisions_signs : ∃ ev, evaluate "0/0/0 - 2/-0" = .ok ev ∧
    ev.warnings.filter Warning.isDivision =
      [.zeroOverZero, .divisionByZero Binary64.nan, .divisionByZero 2] ∧
    ∃ o : Operation, o.overZero? = some 2 ∧ ∃ quotient ws,
      o.term.eval? = some (.live quotient, ws) ∧ quotient.isInf = true ∧ quotient.isNaN = false := by
  let zero : Factor := .number 0 false
  let tree : Expression := .sum (.term (.product (.product (.factor zero) .over zero) .over zero)) .minus
    (.product (.factor (.number 2 false)) .over (.negation zero))
  have h : evaluate "0/0/0 - 2/-0" =
      .ok ⟨Binary64.nan, [.zeroOverZero, .divisionByZero Binary64.nan, .divisionByZero 2],
        "0 / 0 / 0 - 2 / - 0"⟩ := by
    decide +kernel
  have hlexemes : tree.lexemes = (TokenStream.ofString "0/0/0 - 2/-0").tokens.map Token.lexeme := by
    decide +kernel
  obtain ⟨hwarnings, hquotient⟩ := evaluate_divisions h hlexemes
  obtain ⟨-, o, -, hover, quotient, ws, hterm, hinf, hnan⟩ := hquotient 2 (by decide +kernel)
  have hnumber : (2 : Float).isNaN = false := by decide +kernel
  rw [hnumber] at hinf hnan
  refine ⟨_, h, hwarnings.trans ?_, o, hover, quotient, ws, hterm, hinf, hnan⟩
  decide +kernel

/-- A numerator that is named may be NaN, and its quotient is then not infinite. -/
theorem evaluate_nan_over_zero : ∃ ev, evaluate "0/0/0" = .ok ev ∧
    .divisionByZero Binary64.nan ∈ ev.warnings ∧ ev.value.isInf = false := by
  have h : evaluate "0/0/0" =
      .ok ⟨Binary64.nan, [.zeroOverZero, .divisionByZero Binary64.nan], "0 / 0 / 0"⟩ := by
    decide +kernel
  exact ⟨_, h, by decide +kernel, by decide +kernel⟩

end DeskCalculator
