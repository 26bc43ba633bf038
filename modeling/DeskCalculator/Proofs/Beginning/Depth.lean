import DeskCalculator.Proofs.Beginning.Value

/-!
# Depths of beginnings

`levels` counts the levels that are open at the end of what has been read, and `nesting` is the
greatest number of them that were open at once. A token opens a level if it asks for one
(`levels_push_of_opens`), the nesting takes the new levels in (`nesting_push`), and for a whole
expression it is its depth (`nesting_operator`). The depth of a state is the number of open levels
(`depth_eval?`).
-/

namespace DeskCalculator

theorem Factor.depth_negated (f : Factor) (n : Nat) : (f.negated n).depth = f.depth + n := by
  induction n generalizing f with
  | zero => rfl
  | succ n ih =>
    rw [Factor.negated, ih, Factor.depth]
    omega

namespace Beginning

/-! ## Open levels -/

/-- The levels open around the innermost parenthesis, with that parenthesis. -/
def outerLevels : List (Waiting × Opening) → Nat
  | [] => 0
  | (waiting, _) :: outer => outerLevels outer + waiting.negations + 1

def Front.levels : Front → Nat
  | .factor waiting => waiting.negations
  | .parenthesis waiting _ _ => waiting.negations
  | .operator _ _ => 0

/-- The number of levels that are open. -/
def levels (b : Beginning) : Nat :=
  outerLevels b.outer + b.front.levels

theorem Waiting.negations_eval? {waiting : Waiting} {pending : Pending} {ws : List Warning}
    (h : waiting.eval? = some (pending, ws)) : pending.negations = waiting.negations := by
  obtain ⟨⟨sum, ws₁⟩, -, h⟩ := Option.bind_eq_some_iff.1 h
  obtain ⟨⟨product, ws₂⟩, -, h⟩ := Option.bind_eq_some_iff.1 h
  cases h
  rfl

theorem outerDepth_outerValue? {outer : List (Waiting × Opening)}
    {levels : List (Pending × Opening)} {ws : List Warning}
    (h : outerValue? outer = some (levels, ws)) : State.outerDepth levels = outerLevels outer := by
  induction outer generalizing levels ws with
  | nil => cases h; rfl
  | cons level outer ih =>
    obtain ⟨levels', pending, _, _, houter, hwaiting, rfl, -⟩ := outerValue?_cons_eq_some h
    have hlevels := ih houter
    have hnegations := Waiting.negations_eval? hwaiting
    rw [State.outerDepth, outerLevels, hlevels, hnegations]

/-- The depth of the state that a beginning is worth is the number of its open levels. -/
theorem depth_eval? {b : Beginning} {s : State} {ws : List Warning}
    (h : b.eval? = some (s, ws)) : s.depth = b.levels := by
  obtain ⟨outer, front⟩ := b
  obtain ⟨levels, phase⟩ := s
  obtain ⟨ws₁, ws₂, houter, hfront, -⟩ := eval?_eq_some h
  have hlevels := outerDepth_outerValue? houter
  cases front with
  | operator sum product =>
    obtain ⟨sum', product', _, _, -, -, hphase, -⟩ := eval?_operator_eq_some hfront
    cases hphase
    exact hlevels
  | _ =>
    obtain ⟨⟨pending, ws₃⟩, hwaiting, hphase⟩ := Option.bind_eq_some_iff.1 hfront
    cases hphase
    have hnegations := Waiting.negations_eval? hwaiting
    simp only [State.depth, Beginning.levels, Front.levels] at hlevels ⊢
    omega

/-! ## Nesting -/

/-- The depth of the trees to the left of a factor. -/
def Waiting.depth (waiting : Waiting) : Nat :=
  max (waiting.sum.elim 0 fun left => left.1.depth) (waiting.product.elim 0 fun left => left.1.depth)

theorem Waiting.depth_empty : Waiting.depth {} = 0 :=
  rfl

/-- The greatest number of levels that were open at once up to the innermost parenthesis. -/
def outerNesting : List (Waiting × Opening) → Nat
  | [] => 0
  | (waiting, _) :: outer =>
    max (outerNesting outer)
      (outerLevels outer + max waiting.depth (waiting.negations + 1))

def Front.nesting : Front → Nat
  | .factor waiting => max waiting.depth waiting.negations
  | .parenthesis waiting _ _ => max waiting.depth waiting.negations
  | .operator sum product => (join sum product).depth

/-- The greatest number of levels that were open at once. -/
def nesting (b : Beginning) : Nat :=
  max (outerNesting b.outer) (outerLevels b.outer + b.front.nesting)

theorem levels_le_nesting (b : Beginning) : b.levels ≤ b.nesting := by
  obtain ⟨outer, front⟩ := b
  cases front <;> simp only [levels, nesting, Front.levels, Front.nesting] <;> omega

theorem depth_join (sum : Option (Expression × SumOp)) (product : Term) :
    (join sum product).depth = max (sum.elim 0 fun left => left.1.depth) product.depth := by
  rcases sum with _ | ⟨left, op⟩
  · simp [join, Expression.depth]
  · rfl

/-- For a whole expression the nesting is its depth. -/
theorem nesting_operator (sum : Option (Expression × SumOp)) (product : Term) :
    nesting ⟨[], .operator sum product⟩ = (join sum product).depth := by
  simp [nesting, outerNesting, outerLevels, Front.nesting]

theorem levels_complete (outer : List (Waiting × Opening)) (waiting : Waiting) (f : Factor) :
    (complete outer waiting f).levels = outerLevels outer := by
  obtain ⟨sum, product, negations⟩ := waiting
  rcases product with _ | ⟨left, op⟩ <;> rfl

theorem nesting_complete (outer : List (Waiting × Opening)) (waiting : Waiting) (f : Factor) :
    (complete outer waiting f).nesting = max (outerNesting outer)
      (outerLevels outer + max waiting.depth (f.depth + waiting.negations)) := by
  obtain ⟨sum, product, negations⟩ := waiting
  rcases product with _ | ⟨left, op⟩
  · simp only [complete, nesting, Front.nesting, depth_join, Term.depth, Factor.depth_negated,
      Waiting.depth, Option.elim_none]
    omega
  · simp only [complete, nesting, Front.nesting, depth_join, Term.depth, Factor.depth_negated,
      Waiting.depth, Option.elim_some]
    omega

/-- The nesting takes in the levels that are open after a token. -/
theorem nesting_push {b b' : Beginning} {t : Token} (hb : b.push t = some b') :
    b'.nesting = max b.nesting b'.levels := by
  cases pushed_of_push hb with
  | number outer waiting value fractional position =>
    rw [nesting_complete, levels_complete]
    simp only [nesting, Front.nesting, Factor.depth]
    omega
  | constant outer waiting c position =>
    rw [nesting_complete, levels_complete]
    simp only [nesting, Front.nesting, Factor.depth]
    omega
  | name outer waiting name position =>
    simp only [nesting, levels, Front.nesting, Front.levels]
    omega
  | group outer waiting position =>
    simp only [nesting, levels, outerNesting, outerLevels, Front.nesting, Front.levels,
      Waiting.depth_empty]
    omega
  | minus outer waiting position =>
    simp only [nesting, levels, Front.nesting, Front.levels, Waiting.depth]
    omega
  | call outer waiting name position position' =>
    simp only [nesting, levels, outerNesting, outerLevels, Front.nesting, Front.levels,
      Waiting.depth_empty]
    omega
  | product outer sum product op position =>
    simp only [nesting, levels, Front.nesting, Front.levels, Waiting.depth, Option.elim_some,
      depth_join]
    omega
  | sum outer sum product op position =>
    simp only [nesting, levels, Front.nesting, Front.levels, Waiting.depth, Option.elim_some,
      Option.elim_none]
    omega
  | groupEnd outer waiting sum product position =>
    rw [nesting_complete, levels_complete]
    simp only [nesting, outerNesting, outerLevels, Front.nesting, Factor.depth]
    omega
  | callEnd outer waiting name position sum product position' =>
    rw [nesting_complete, levels_complete]
    simp only [nesting, outerNesting, outerLevels, Front.nesting, Factor.depth]
    omega

/-- A token that asks for a level opens one. -/
theorem levels_push_of_opens {b b' : Beginning} {t : Token} (hb : b.push t = some b')
    (ht : b.front.stage.opens t.kind = true) : b'.levels = b.levels + 1 := by
  cases pushed_of_push hb with
  | group outer waiting position => rfl
  | minus outer waiting position => rfl
  | call outer waiting name position position' => rfl
  | number outer waiting value fractional position => cases fractional <;> cases ht
  | _ => cases ht

/-- A token that asks for no level opens none. -/
theorem levels_push_le {b b' : Beginning} {t : Token} (hb : b.push t = some b')
    (ht : b.front.stage.opens t.kind = false) : b'.levels ≤ b.levels := by
  cases pushed_of_push hb with
  | number outer waiting value fractional position =>
    rw [levels_complete]
    exact Nat.le_add_right _ _
  | constant outer waiting c position =>
    rw [levels_complete]
    exact Nat.le_add_right _ _
  | name outer waiting name position => exact Nat.le_refl _
  | product outer sum product op position => exact Nat.le_refl _
  | sum outer sum product op position => exact Nat.le_refl _
  | groupEnd outer waiting sum product position =>
    rw [levels_complete, levels, outerLevels]
    omega
  | callEnd outer waiting name position sum product position' =>
    rw [levels_complete, levels, outerLevels]
    omega
  | _ => cases ht

theorem nesting_le_of_push {b b' : Beginning} {t : Token} (hb : b.push t = some b') :
    b.nesting ≤ b'.nesting := by
  rw [nesting_push hb]
  exact Nat.le_max_left _ _

/-- The nesting never shrinks. -/
theorem nesting_le_of_read? {b b' : Beginning} {ts : List Token} (h : b.read? ts = some b') :
    b.nesting ≤ b'.nesting := by
  induction ts generalizing b with
  | nil => cases h; exact Nat.le_refl _
  | cons t ts ih =>
    obtain ⟨b₁, hpush, hread⟩ := Option.bind_eq_some_iff.1 h
    exact Nat.le_trans (nesting_le_of_push hpush) (ih hread)

end Beginning

end DeskCalculator
