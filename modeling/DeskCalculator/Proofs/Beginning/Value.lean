import DeskCalculator.Proofs.Viability

/-!
# Values of beginnings

A beginning all of whose calls have values is worth a state of an evaluation, shaped like it, and the
warnings of its trees (`eval?`). Completing it by a factor is, by value, completing the state by the
value of the factor (`eval?_complete`); once a call in it has no value, it never has one again
(`eval?_push_eq_none`).
-/

namespace DeskCalculator

open Beginning (Waiting Front join complete)

def Phase.stage : Phase → Stage
  | .factor _ => .factor
  | .parenthesis _ _ _ => .parenthesis
  | .operator _ _ => .operator

def State.shape (s : State) : Shape :=
  ⟨s.outer.length, s.phase.stage⟩

/-! ## Values of trees -/

theorem ProductOp.fold_eq_eval (op : ProductOp) (a b : Float) :
    (Product.live a).fold op b = (op.eval a b).1 ∧
      ((Product.live a).warning? op b).toList = (op.eval a b).2 := by
  rcases op with _ | _ | _ | _
  · exact ⟨rfl, rfl⟩
  · -- a division is reported by its divisor, as one of two warnings
    simp only [Product.fold, Product.warning?, ProductOp.warning?, ProductOp.eval, ProductOp.apply]
    by_cases hb : b == 0.0 <;> by_cases ha : a == 0.0 <;> simp [ha, hb]
  · exact ⟨rfl, rfl⟩
  · -- a power is void, or reported, or neither
    simp only [Product.fold, Product.warning?, ProductOp.warning?, ProductOp.eval, ProductOp.apply]
    by_cases h : (a == 0.0 && b == 0.0) = true
    · simp [h]
    · by_cases h' : (a == 0.0 && b == -1.0) = true <;> simp [h, h']

/-- The product of a term with one more factor is that of the term, folded with it. -/
theorem Term.eval?_product (left : Term) (op : ProductOp) (right : Factor) :
    (Term.product left op right).eval? = (do
      let (p, ws) ← left.eval?
      let (value, ws') ← right.eval?
      some (p.fold op value, ws ++ ws' ++ (p.warning? op value).toList)) := by
  rw [Term.eval?]
  rcases left.eval? with _ | ⟨p, ws⟩
  · rfl
  rcases right.eval? with _ | ⟨value, ws'⟩
  · rfl
  cases p with
  | live a =>
    obtain ⟨hfold, hwarning⟩ := op.fold_eq_eval a value
    simp [hfold, hwarning]
  | void => simp [Product.fold, Product.warning?]

theorem Factor.eval?_negated (f : Factor) (n : Nat) :
    (f.negated n).eval? = f.eval?.map fun r => (State.negate r.1 n, r.2) := by
  induction n generalizing f with
  | zero => simp [Factor.negated, State.negate]
  | succ n ih =>
    rw [Factor.negated, ih, Factor.eval?]
    rcases f.eval? with _ | ⟨value, ws⟩
    · rfl
    · rfl

namespace Beginning

/-! ## Values of what waits -/

def sumValue? : Option (Expression × SumOp) → Option (Option (Float × SumOp) × List Warning)
  | none => some (none, [])
  | some (left, op) => do
    let (value, warnings) ← left.eval?
    some (some (value, op), warnings)

def productValue? : Option (Term × ProductOp) → Option (Option (Product × ProductOp) × List Warning)
  | none => some (none, [])
  | some (left, op) => do
    let (product, warnings) ← left.eval?
    some (some (product, op), warnings)

def Waiting.eval? (waiting : Waiting) : Option (Pending × List Warning) := do
  let (sum, warnings) ← sumValue? waiting.sum
  let (product, warnings') ← productValue? waiting.product
  some (⟨sum, product, waiting.negations⟩, warnings ++ warnings')

def outerValue? : List (Waiting × Opening) → Option (List (Pending × Opening) × List Warning)
  | [] => some ([], [])
  | (waiting, opening) :: outer => do
    let (levels, warnings) ← outerValue? outer
    let (pending, warnings') ← waiting.eval?
    some ((pending, opening) :: levels, warnings ++ warnings')

def Front.eval? : Front → Option (Phase × List Warning)
  | .factor waiting => do
    let (pending, warnings) ← waiting.eval?
    some (.factor pending, warnings)
  | .parenthesis waiting name position => do
    let (pending, warnings) ← waiting.eval?
    some (.parenthesis pending name position, warnings)
  | .operator sum product => do
    let (sum, warnings) ← sumValue? sum
    let (product, warnings') ← product.eval?
    some (.operator sum product, warnings ++ warnings')

/-- The state that a beginning is worth and the warnings so far; nothing if a call in it has no
value. -/
def eval? (b : Beginning) : Option (State × List Warning) := do
  let (outer, warnings) ← outerValue? b.outer
  let (phase, warnings') ← b.front.eval?
  some (⟨outer, phase⟩, warnings ++ warnings')

theorem eval?_start : eval? {} = some ({}, []) :=
  rfl

theorem eval?_join (sum : Option (Expression × SumOp)) (product : Term) :
    (join sum product).eval? = (do
      let (sum, ws) ← sumValue? sum
      let (product, ws') ← product.eval?
      some (State.total sum product, ws ++ ws')) := by
  rcases sum with _ | ⟨left, op⟩
  · rw [join, Expression.eval?]
    rcases product.eval? with _ | ⟨value, ws⟩
    · rfl
    · rfl
  · rw [join, Expression.eval?, sumValue?]
    rcases left.eval? with _ | ⟨value, ws⟩
    · rfl
    rcases product.eval? with _ | ⟨value', ws'⟩
    · rfl
    · cases op <;> rfl

theorem eval?_join_of_some {sum : Option (Expression × SumOp)} {product : Term}
    {sum' : Option (Float × SumOp)} {product' : Product} {ws ws' : List Warning}
    (hsum : sumValue? sum = some (sum', ws)) (hproduct : product.eval? = some (product', ws')) :
    (join sum product).eval? = some (State.total sum' product', ws ++ ws') := by
  rw [eval?_join, hsum, Option.bind_eq_bind, Option.bind_some, hproduct]
  rfl

/-- Completing a beginning by a factor is, by value, completing the state by the value of the
factor. -/
theorem eval?_complete (outer : List (Waiting × Opening)) (waiting : Waiting) (f : Factor) :
    (complete outer waiting f).eval? = (do
      let (levels, ws) ← outerValue? outer
      let (pending, ws') ← waiting.eval?
      let (value, ws'') ← f.eval?
      let (s, warning?) := State.complete levels pending value
      some (s, ws ++ ws' ++ ws'' ++ warning?.toList)) := by
  obtain ⟨sum, product, negations⟩ := waiting
  rcases product with _ | ⟨left, op⟩
  · simp only [complete, eval?, Front.eval?, Waiting.eval?, productValue?, Term.eval?,
      Factor.eval?_negated]
    rcases outerValue? outer with _ | ⟨levels, ws⟩
    · rfl
    rcases sumValue? sum with _ | ⟨sum, ws'⟩
    · rfl
    rcases f.eval? with _ | ⟨value, ws''⟩
    · rfl
    · simp [State.complete]
  · simp only [complete, eval?, Front.eval?, Waiting.eval?, productValue?, Term.eval?_product,
      Factor.eval?_negated]
    rcases outerValue? outer with _ | ⟨levels, ws⟩
    · rfl
    rcases sumValue? sum with _ | ⟨sum, ws'⟩
    · rfl
    rcases left.eval? with _ | ⟨product, ws''⟩
    · rfl
    rcases f.eval? with _ | ⟨value, ws'''⟩
    · rfl
    · simp [State.complete]

theorem eval?_eq_some {b : Beginning} {s : State} {ws : List Warning} (h : b.eval? = some (s, ws)) :
    ∃ ws₁ ws₂, outerValue? b.outer = some (s.outer, ws₁) ∧ b.front.eval? = some (s.phase, ws₂) ∧
      ws = ws₁ ++ ws₂ := by
  obtain ⟨⟨levels, ws₁⟩, houter, h⟩ := Option.bind_eq_some_iff.1 h
  obtain ⟨⟨phase, ws₂⟩, hfront, h⟩ := Option.bind_eq_some_iff.1 h
  cases h
  exact ⟨ws₁, ws₂, houter, hfront, rfl⟩

theorem eval?_mk {outer : List (Waiting × Opening)} {front : Front}
    {levels : List (Pending × Opening)} {phase : Phase} {ws ws' : List Warning}
    (houter : outerValue? outer = some (levels, ws)) (hfront : front.eval? = some (phase, ws')) :
    eval? ⟨outer, front⟩ = some (⟨levels, phase⟩, ws ++ ws') := by
  rw [eval?, houter, Option.bind_eq_bind, Option.bind_some, hfront]
  rfl

theorem eval?_operator_eq_some {sum : Option (Expression × SumOp)} {product : Term} {phase : Phase}
    {ws : List Warning} (h : Front.eval? (.operator sum product) = some (phase, ws)) :
    ∃ sum' product' ws₁ ws₂, sumValue? sum = some (sum', ws₁) ∧
      product.eval? = some (product', ws₂) ∧ phase = .operator sum' product' ∧ ws = ws₁ ++ ws₂ := by
  obtain ⟨⟨sum', ws₁⟩, hsum, h⟩ := Option.bind_eq_some_iff.1 h
  obtain ⟨⟨product', ws₂⟩, hproduct, h⟩ := Option.bind_eq_some_iff.1 h
  cases h
  exact ⟨sum', product', ws₁, ws₂, hsum, hproduct, rfl, rfl⟩

theorem Waiting.eval?_negations {waiting : Waiting} {pending : Pending} {ws : List Warning}
    (h : waiting.eval? = some (pending, ws)) :
    Waiting.eval? { waiting with negations := waiting.negations + 1 } =
      some ({ pending with negations := pending.negations + 1 }, ws) := by
  obtain ⟨⟨sum, ws₁⟩, hsum, h⟩ := Option.bind_eq_some_iff.1 h
  obtain ⟨⟨product, ws₂⟩, hproduct, h⟩ := Option.bind_eq_some_iff.1 h
  cases h
  simp [Waiting.eval?, hsum, hproduct]

theorem outerValue?_cons {outer : List (Waiting × Opening)} {levels : List (Pending × Opening)}
    {waiting : Waiting} {pending : Pending} {ws ws' : List Warning} (opening : Opening)
    (houter : outerValue? outer = some (levels, ws)) (hwaiting : waiting.eval? = some (pending, ws')) :
    outerValue? ((waiting, opening) :: outer) = some ((pending, opening) :: levels, ws ++ ws') := by
  simp [outerValue?, houter, hwaiting]

theorem outerValue?_cons_eq_some {outer : List (Waiting × Opening)} {waiting : Waiting}
    {opening : Opening} {levels : List (Pending × Opening)} {ws : List Warning}
    (h : outerValue? ((waiting, opening) :: outer) = some (levels, ws)) :
    ∃ levels' pending ws₁ ws₂, outerValue? outer = some (levels', ws₁) ∧
      waiting.eval? = some (pending, ws₂) ∧ levels = (pending, opening) :: levels' ∧
        ws = ws₁ ++ ws₂ := by
  obtain ⟨⟨levels', ws₁⟩, houter, h⟩ := Option.bind_eq_some_iff.1 h
  obtain ⟨⟨pending, ws₂⟩, hwaiting, h⟩ := Option.bind_eq_some_iff.1 h
  cases h
  exact ⟨levels', pending, ws₁, ws₂, houter, hwaiting, rfl, rfl⟩

/-- The start of a level is worth the start of a level. -/
theorem eval?_fresh {outer : List (Waiting × Opening)} {levels : List (Pending × Opening)}
    {waiting : Waiting} {pending : Pending} {ws ws' : List Warning} (opening : Opening)
    (houter : outerValue? outer = some (levels, ws)) (hwaiting : waiting.eval? = some (pending, ws')) :
    eval? ⟨(waiting, opening) :: outer, .factor {}⟩ =
      some (State.fresh ((pending, opening) :: levels), ws ++ ws') := by
  have hfront : Front.eval? (.factor {}) = some (.factor {}, []) := rfl
  have h := eval?_mk (outerValue?_cons opening houter hwaiting) hfront
  rwa [List.append_nil] at h

/-! ## Shapes -/

theorem length_outerValue? {outer : List (Waiting × Opening)} {levels : List (Pending × Opening)}
    {ws : List Warning} (h : outerValue? outer = some (levels, ws)) :
    levels.length = outer.length := by
  induction outer generalizing levels ws with
  | nil => cases h; rfl
  | cons level outer ih =>
    obtain ⟨levels', pending, ws₁, ws₂, houter, -, rfl, -⟩ := outerValue?_cons_eq_some h
    rw [List.length_cons, List.length_cons, ih houter]

theorem stage_eval? {front : Front} {phase : Phase} {ws : List Warning}
    (h : front.eval? = some (phase, ws)) : phase.stage = front.stage := by
  cases front with
  | operator sum product =>
    obtain ⟨sum', product', _, _, -, -, rfl, -⟩ := eval?_operator_eq_some h
    rfl
  | _ =>
    obtain ⟨⟨pending, ws₁⟩, -, h⟩ := Option.bind_eq_some_iff.1 h
    cases h
    rfl

/-- A beginning and the state that it is worth have one shape. -/
theorem shape_eval? {b : Beginning} {s : State} {ws : List Warning} (h : b.eval? = some (s, ws)) :
    s.shape = b.shape := by
  obtain ⟨ws₁, ws₂, houter, hfront, -⟩ := eval?_eq_some h
  rw [State.shape, shape, length_outerValue? houter, stage_eval? hfront]

/-! ## Lost values -/

theorem outerValue?_cons_eq_none {outer : List (Waiting × Opening)} {waiting : Waiting}
    {opening : Opening} : outerValue? ((waiting, opening) :: outer) = none ↔
      outerValue? outer = none ∨ waiting.eval? = none := by
  rw [outerValue?]
  rcases outerValue? outer with _ | ⟨levels, ws⟩
  · simp
  · rcases waiting.eval? with _ | ⟨pending, ws'⟩ <;> simp

theorem Waiting.eval?_eq_none {waiting : Waiting} : waiting.eval? = none ↔
    sumValue? waiting.sum = none ∨ productValue? waiting.product = none := by
  rw [Waiting.eval?]
  rcases sumValue? waiting.sum with _ | ⟨sum, ws⟩
  · simp
  · rcases productValue? waiting.product with _ | ⟨product, ws'⟩ <;> simp

theorem eval?_join_eq_none {sum : Option (Expression × SumOp)} {product : Term} :
    (join sum product).eval? = none ↔ sumValue? sum = none ∨ product.eval? = none := by
  rw [eval?_join]
  rcases sumValue? sum with _ | ⟨sum, ws⟩
  · simp
  · rcases product.eval? with _ | ⟨product, ws'⟩ <;> simp

theorem eval?_factor_eq_none {outer : List (Waiting × Opening)} {waiting : Waiting} :
    eval? ⟨outer, .factor waiting⟩ = none ↔ outerValue? outer = none ∨ waiting.eval? = none := by
  rw [eval?]
  rcases outerValue? outer with _ | ⟨levels, ws⟩
  · simp
  · rcases h : waiting.eval? with _ | ⟨pending, ws'⟩ <;> simp [Front.eval?, h]

theorem eval?_parenthesis_eq_none {outer : List (Waiting × Opening)} {waiting : Waiting}
    {name : String} {position : Nat} : eval? ⟨outer, .parenthesis waiting name position⟩ = none ↔
      outerValue? outer = none ∨ waiting.eval? = none := by
  rw [eval?]
  rcases outerValue? outer with _ | ⟨levels, ws⟩
  · simp
  · rcases h : waiting.eval? with _ | ⟨pending, ws'⟩ <;> simp [Front.eval?, h]

theorem eval?_operator_eq_none {outer : List (Waiting × Opening)}
    {sum : Option (Expression × SumOp)} {product : Term} :
    eval? ⟨outer, .operator sum product⟩ = none ↔
      outerValue? outer = none ∨ (join sum product).eval? = none := by
  rw [eval?, eval?_join_eq_none]
  rcases outerValue? outer with _ | ⟨levels, ws⟩
  · simp
  rcases hs : sumValue? sum with _ | ⟨sum', ws'⟩
  · simp [Front.eval?, hs]
  · rcases hp : product.eval? with _ | ⟨product', ws''⟩ <;> simp [Front.eval?, hs, hp]

theorem eval?_complete_eq_none {outer : List (Waiting × Opening)} {waiting : Waiting} {f : Factor} :
    (complete outer waiting f).eval? = none ↔
      outerValue? outer = none ∨ waiting.eval? = none ∨ f.eval? = none := by
  rw [eval?_complete]
  rcases outerValue? outer with _ | ⟨levels, ws⟩
  · simp
  rcases waiting.eval? with _ | ⟨pending, ws'⟩
  · simp
  rcases f.eval? with _ | ⟨value, ws''⟩ <;> simp

/-- A beginning without a value keeps none. -/
theorem eval?_push_eq_none {b b' : Beginning} {t : Token} (h : b.eval? = none)
    (hb : b.push t = some b') : b'.eval? = none := by
  cases pushed_of_push hb with
  | number outer waiting value fractional position =>
    rw [eval?_factor_eq_none] at h
    exact eval?_complete_eq_none.2 (h.imp_right .inl)
  | constant outer waiting c position =>
    rw [eval?_factor_eq_none] at h
    exact eval?_complete_eq_none.2 (h.imp_right .inl)
  | name outer waiting name position =>
    rw [eval?_factor_eq_none] at h
    exact eval?_parenthesis_eq_none.2 h
  | group outer waiting position =>
    rw [eval?_factor_eq_none] at h
    exact eval?_factor_eq_none.2 (.inl (outerValue?_cons_eq_none.2 h))
  | minus outer waiting position =>
    rw [eval?_factor_eq_none, Waiting.eval?_eq_none] at h
    exact eval?_factor_eq_none.2 (h.imp_right Waiting.eval?_eq_none.2)
  | call outer waiting name position position' =>
    rw [eval?_parenthesis_eq_none] at h
    exact eval?_factor_eq_none.2 (.inl (outerValue?_cons_eq_none.2 h))
  | product outer sum product op position =>
    rw [eval?_operator_eq_none, eval?_join_eq_none] at h
    refine eval?_factor_eq_none.2 (h.imp_right fun hlost => Waiting.eval?_eq_none.2 ?_)
    refine hlost.imp_right fun hproduct => ?_
    rw [productValue?, hproduct]
    rfl
  | sum outer sum product op position =>
    rw [eval?_operator_eq_none] at h
    refine eval?_factor_eq_none.2 (h.imp_right fun hjoin => Waiting.eval?_eq_none.2 (.inl ?_))
    rw [sumValue?, hjoin]
    rfl
  | groupEnd outer waiting sum product position =>
    rw [eval?_operator_eq_none, outerValue?_cons_eq_none, or_assoc] at h
    exact eval?_complete_eq_none.2 h
  | callEnd outer waiting name position sum product position' =>
    rw [eval?_operator_eq_none, outerValue?_cons_eq_none, or_assoc] at h
    refine eval?_complete_eq_none.2 (h.imp_right (Or.imp_right fun hjoin => ?_))
    rw [Factor.eval?, hjoin]
    rfl

theorem eval?_read?_eq_none {b b' : Beginning} {ts : List Token} (h : b.eval? = none)
    (hb : b.read? ts = some b') : b'.eval? = none := by
  induction ts generalizing b with
  | nil => cases hb; exact h
  | cons t ts ih =>
    obtain ⟨b₁, hpush, hread⟩ := Option.bind_eq_some_iff.1 hb
    exact ih (eval?_push_eq_none h hpush) hread

end Beginning

end DeskCalculator
