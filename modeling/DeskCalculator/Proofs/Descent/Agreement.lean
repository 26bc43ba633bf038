import DeskCalculator.Proofs.Descent
import DeskCalculator.Proofs.Run

/-!
# The descent and the states

What the descent has open around a rule is what the levels of a state hold. So a rule, applied where a
state waits for what it reads, ends the evaluation with the error that it returns, or leads to the
state with its value (`ending_factor` and its like, one for each rule), and the descent evaluates what
the states do, to the same outcome and the same parser (`evaluate_eq_run`).
-/

namespace DeskCalculator

namespace Parser

/-- How an evaluation that goes on from a state ends: with an outcome and the parser left. -/
def ending (s : State) (p : Parser) : Except Error Float × Parser :=
  ((runFrom s p).outcome, (runFrom s p).parser)

/-- How it ends once a move is carried out. -/
def settled (move : Move) (p : Parser) : Except Error Float × Parser :=
  match move.perform with
  | .error e => (.error e, p)
  | .ok effect => ending effect.state { p with warnings := p.warnings ++ effect.warning?.toList }

theorem settled_enter (s : State) (p : Parser) : settled (.enter s) p = ending s p := by
  rw [settled, Move.perform]
  simp

theorem ending_of_ended {s : State} {p : Parser} {run : Run} (h : step s p = .ended run) :
    ending s p = (run.outcome, run.parser) := by
  rw [ending, runFrom_of_ended h]

theorem ending_congr {s s' : State} {p : Parser} (h : step s p = step s' p) :
    ending s p = ending s' p := by
  rw [ending, ending]
  cases hstep : step s' p with
  | ended run => rw [runFrom_of_ended hstep, runFrom_of_ended (h.trans hstep)]
  | continued s'' p' journal =>
    rw [runFrom_of_continued hstep, runFrom_of_continued (h.trans hstep)]

theorem ending_of_plan {s : State} {p : Parser} {t : Token} {move : Move} {current : Lookahead}
    (hcurrent : p.current = .token t) (hplan : s.plan t = .ok move)
    (hnext : p.stream.next.1 = .ok current) : ending s p = settled move (p.advance current) := by
  have hstep := step_of_readable hcurrent hplan (p.stream.next_fst.symm.trans hnext)
  rw [settled]
  cases hperform : move.perform with
  | error e =>
    rw [hperform] at hstep
    exact ending_of_ended hstep
  | ok effect =>
    rw [hperform] at hstep
    rw [ending, runFrom_of_continued hstep]
    rfl

/-- What is refused, at a token or at the end. -/
theorem ending_of_refused {s : State} {p : Parser} {e : Error}
    (hplan : ∀ t, p.current = .token t → s.plan t = .error e)
    (hfinish : ∀ position, p.current = .endOfInput position → s.finish position = .error e) :
    ending s p = (.error e, p) := by
  have hstep : step s p = .ended ⟨.error e, p, []⟩ := by
    rw [step]
    cases hcurrent : p.current with
    | token t => simp only [hplan t hcurrent]
    | endOfInput position => simp only [hfinish position hcurrent]
  exact ending_of_ended hstep

end Parser

open DeskCalculator.Parser (ending settled)

/-! ## Results and what follows -/

namespace Return

variable {α β : Type} {c : Counter}

/-- How an evaluation ends after a rule: with its error, or as what follows its result does. -/
def resume (r : Return c α) (k : α → Counter → Except Error Float × Parser) :
    Except Error Float × Parser :=
  match r.result with
  | .ok a => k a r.counter
  | .error e => (.error e, r.counter.parser)

theorem resume_eq (r : Return c Float) :
    r.resume (fun value c' => (.ok value, c'.parser)) = (r.result, r.counter.parser) := by
  rw [resume]
  cases r.result <;> rfl

/-- What holds of the result and of the counter, if there is a result. -/
def Ensures (r : Return c α) (P : α → Counter → Prop) : Prop :=
  ∀ a, r.result = .ok a → P a r.counter

theorem ensures_ok {P : α → Counter → Prop} {a : α} (h : P a c) : (ok a c).Ensures P := by
  intro a' ha
  cases ha
  exact h

theorem ensures_error {P : α → Counter → Prop} (e : Error) (c' : Counter)
    (h : c'.remaining ≤ c.remaining) : (⟨.error e, c', h⟩ : Return c α).Ensures P := by
  intro a ha
  cases ha

theorem ensures_bind {P : α → Counter → Prop} {Q : β → Counter → Prop} {r : Return c α}
    {f : α → (c' : Counter) → c'.remaining ≤ c.remaining → Return c' β} (hr : r.Ensures P)
    (hf : ∀ a c' h, P a c' → (f a c' h).Ensures Q) : (r.bind f).Ensures Q := by
  rw [bind]
  cases hresult : r.result with
  | error e => exact ensures_error e _ _
  | ok a => exact hf a r.counter r.le (hr a hresult)

theorem ensures_leave {P : α → Counter → Prop} {t : Token} {hc : c.parser.current = .token t}
    {f : (c' : Counter) → c'.remaining < c.remaining → Return c' α}
    (hf : ∀ c' h, (f c' h).Ensures P) : (leave c hc f).Ensures P := by
  rw [leave]
  split
  · next current h => exact hf (c.advance current) (Counter.remaining_advance_lt hc h)
  · exact ensures_error _ _ _

theorem Restores.ensures {limit : Option Nat} {r : Return c α} (h : r.Restores limit) :
    r.Ensures fun _ c' => c'.depth = c.depth :=
  fun _ _ => h.1

theorem Ensures.and {P Q : α → Counter → Prop} {r : Return c α} (hP : r.Ensures P)
    (hQ : r.Ensures Q) : r.Ensures fun a c' => P a c' ∧ Q a c' :=
  fun a ha => ⟨hP a ha, hQ a ha⟩

theorem resume_bind {P : α → Counter → Prop} {r : Return c α}
    {f : α → (c' : Counter) → c'.remaining ≤ c.remaining → Return c' β}
    {k : α → Counter → Except Error Float × Parser}
    {k' : β → Counter → Except Error Float × Parser} (hr : r.Ensures P)
    (hf : ∀ a c' h, P a c' → k a c' = (f a c' h).resume k') : r.resume k = (r.bind f).resume k' := by
  rw [resume, bind]
  cases hresult : r.result with
  | error e => rfl
  | ok a => exact hf a r.counter r.le (hr a hresult)

theorem ending_leave {s : State} {t : Token} {hc : c.parser.current = .token t} {move : Move}
    {f : (c' : Counter) → c'.remaining < c.remaining → Return c' α}
    {k : α → Counter → Except Error Float × Parser} (hplan : s.plan t = .ok move)
    (hf : ∀ c' h, c'.depth = c.depth → settled move c'.parser = (f c' h).resume k) :
    ending s c.parser = (leave c hc f).resume k := by
  rw [leave]
  split
  · next current hnext =>
    rw [Parser.ending_of_plan hc hplan hnext]
    exact hf (c.advance current) _ rfl
  · next e hnext =>
    exact Parser.ending_of_ended
      (Parser.step_of_unreadable hc hplan (c.parser.stream.next_fst.symm.trans hnext))

/-- What is refused by a state as by the descent. -/
theorem ending_refuse {s : State} {expected : Expected}
    {k : α → Counter → Except Error Float × Parser}
    (hplan : ∀ t, c.parser.current = .token t →
      s.plan t = .error (.unexpected t.kind expected t.position))
    (hfinish : ∀ position, c.parser.current = .endOfInput position →
      s.finish position = .error (.unexpected .endOfInput expected position)) :
    ending s c.parser = (refuse expected c).resume k := by
  refine Parser.ending_of_refused (fun t ht => ?_) fun position hposition => ?_
  · rw [hplan t ht, ht]
    rfl
  · rw [hfinish position hposition, hposition]
    rfl

end Return

/-- What the parenthesis that closes a level does with the value of the level. -/
def Opening.closing (opening : Opening) (outer : List (Pending × Opening)) (pending : Pending)
    (value : Float) : Move :=
  match opening with
  | .group => .factor outer pending value
  | .call name position => .call outer pending name position value

namespace Descent

open Return

/-! ## What stands next after a rule -/

/-- Whether a product goes on. -/
def AtProduct (c : Counter) : Prop :=
  ∃ op position, c.parser.current = .token ⟨.operator (.product op), position⟩

/-- Whether a sum or a product goes on. -/
def AtOperator (c : Counter) : Prop :=
  ∃ op position, c.parser.current = .token ⟨.operator op, position⟩

variable (limit : Option Nat)

theorem ensures_products (product : Product) (c : Counter) :
    (products limit product c).Ensures fun _ c' => ¬ AtProduct c' := by
  rw [products]
  split
  · refine ensures_leave fun c' _ => ensures_bind (restores_factor limit c').ensures ?_
    intro right c'' _ _
    exact ensures_products _ (c''.warn _)
  · next hother =>
    refine ensures_ok ?_
    rintro ⟨op, position, hc⟩
    exact hother op position hc
termination_by c.remaining
decreasing_by all_goals (rw [Counter.remaining_warn]; omega)

theorem ensures_term (c : Counter) : (term limit c).Ensures fun _ c' => ¬ AtProduct c' := by
  rw [term]
  exact ensures_bind (restores_factor limit c).ensures fun value c' _ _ => ensures_products _ _ _

theorem ensures_sums (value : Float) (c : Counter) (hc : ¬ AtProduct c) :
    (sums limit value c).Ensures fun _ c' => ¬ AtOperator c' := by
  rw [sums]
  split
  · exact ensures_leave fun c' _ => ensures_bind (ensures_term limit c') fun right c'' _ hright =>
      ensures_sums _ c'' hright
  · next hother =>
    refine ensures_ok ?_
    rintro ⟨op, position, hop⟩
    cases op with
    | sum op => exact hother op position hop
    | product op => exact hc ⟨op, position, hop⟩
termination_by c.remaining
decreasing_by all_goals omega

theorem ensures_expression (c : Counter) :
    (expression limit c).Ensures fun _ c' => ¬ AtOperator c' := by
  rw [expression]
  exact ensures_bind (ensures_term limit c) fun value c' _ hc' => ensures_sums _ _ _ hc'

/-! ## One rule at a time -/

theorem lexeme_of_kind_leftParen {t : Token} (h : t.kind = .leftParen) : t.lexeme = .leftParen := by
  obtain ⟨lexeme, position⟩ := t
  cases lexeme with
  | number value fractional => cases fractional <;> cases h
  | leftParen => rfl
  | _ => cases h

theorem lexeme_of_kind_rightParen {t : Token} (h : t.kind = .rightParen) :
    t.lexeme = .rightParen := by
  obtain ⟨lexeme, position⟩ := t
  cases lexeme with
  | number value fractional => cases fractional <;> cases h
  | rightParen => rfl
  | _ => cases h

/-- But for the operators of a product, what follows a factor sees only the total. -/
theorem step_operator_congr {c : Counter} {levels : List (Pending × Opening)}
    {sum sum' : Option (Float × SumOp)} {product product' : Product} (hc : ¬ AtProduct c)
    (h : State.total sum product = State.total sum' product') :
    Parser.step ⟨levels, .operator sum product⟩ c.parser =
      Parser.step ⟨levels, .operator sum' product'⟩ c.parser := by
  rw [Parser.step, Parser.step]
  rcases hcurrent : c.parser.current with ⟨lexeme, position⟩ | position
  · have hplan : State.plan ⟨levels, .operator sum product⟩ ⟨lexeme, position⟩ =
        State.plan ⟨levels, .operator sum' product'⟩ ⟨lexeme, position⟩ := by
      cases lexeme with
      | operator op =>
        cases op with
        | sum op => simp only [State.plan, h]
        | product op => exact absurd ⟨op, position, hcurrent⟩ hc
      | rightParen => rcases levels with _ | ⟨⟨pending, _ | _⟩, levels⟩ <;> simp only [State.plan, h]
      | _ => cases levels <;> rfl
    simp only [hplan]
  · have hfinish : State.finish ⟨levels, .operator sum product⟩ position =
        State.finish ⟨levels, .operator sum' product'⟩ position := by
      cases levels <;> simp only [State.finish, h]
    simp only [hfinish]

/-- A level is refused by the guard of the state and by that of the descent alike. -/
theorem ending_nested {α : Type} {c : Counter} {s : State} {r : Return c.opened α}
    {k : α → Counter → Except Error Float × Parser} (hdepth : c.depth = s.depth)
    (hopens : s.phase.stage.opens c.parser.current.kind = true)
    (hr : s.depth < nestingLimit → ending s c.parser = r.resume fun a c' => k a c'.closed) :
    ending s c.parser = (nested (some nestingLimit) c r).resume k := by
  rw [nested]
  split
  · next hlt => exact hr (hdepth ▸ hlt)
  · next hge =>
    have hblocked : s.Blocked c.parser.current.kind := ⟨hopens, hdepth ▸ Nat.le_of_not_lt hge⟩
    exact Parser.ending_of_ended (Parser.step_of_blocked hblocked)

/-- The parenthesis after an expression closes the level. -/
theorem ending_close {c : Counter} {outer : List (Pending × Opening)} {pending : Pending}
    {opening : Opening} {value : Float} (hc : ¬ AtOperator c) :
    ending ⟨(pending, opening) :: outer, .operator none (.live value)⟩ c.parser =
      (expect .rightParen c fun c' _ => .ok value c').resume fun value c' =>
        settled (opening.closing outer pending value) c'.parser := by
  have hrefuse : c.parser.current.kind ≠ .rightParen →
      ending ⟨(pending, opening) :: outer, .operator none (.live value)⟩ c.parser =
        (refuse (.kind .rightParen) c).resume fun value c' =>
          settled (opening.closing outer pending value) c'.parser := by
    intro hkind
    refine ending_refuse (fun t ht => ?_) fun position _ => rfl
    obtain ⟨lexeme, position⟩ := t
    cases lexeme with
    | operator op => exact absurd ⟨op, position, ht⟩ hc
    | rightParen => rw [ht] at hkind; exact absurd rfl hkind
    | _ => rfl
  rw [expect]
  split
  · next t ht =>
    split
    · next hkind =>
      have hplan : State.plan ⟨(pending, opening) :: outer, .operator none (.live value)⟩ t =
          .ok (opening.closing outer pending value) := by
        rw [State.plan]
        simp only [lexeme_of_kind_rightParen hkind]
        cases opening <;> rfl
      exact ending_leave hplan fun c' _ _ => rfl
    · next hkind => exact hrefuse (by rw [ht]; exact hkind)
  · next position hend =>
    refine hrefuse ?_
    rw [hend]
    intro h
    cases h

/-- The value of a call completes the factor. -/
theorem settled_call (outer : List (Pending × Opening)) (pending : Pending) (name : String)
    (position : Nat) (x : Float) (c : Counter) :
    settled (.call outer pending name position x) c.parser =
      (⟨call name position x, c, Nat.le_refl _⟩ : Return c Float).resume fun value c' =>
        settled (.factor outer pending value) c'.parser := by
  rw [settled, Move.perform, resume, call]
  cases hname : MathFunction.ofName? name with
  | none => rfl
  | some f => cases hvalue : f.valueAt? x <;> simp [hvalue, settled, Move.perform]

/-- The value of the first factor begins a term. -/
theorem settled_first (levels : List (Pending × Opening)) (sum : Option (Float × SumOp))
    (value : Float) (p : Parser) :
    settled (.factor levels { sum } value) p = ending ⟨levels, .operator sum (.live value)⟩ p := by
  rw [settled, Move.perform]
  simp [State.complete, State.negate]

theorem outerDepth_opened {c : Counter} {outer : List (Pending × Opening)} {pending : Pending}
    {opening : Opening} (h : c.depth = State.outerDepth outer + pending.negations) :
    c.opened.depth = State.outerDepth ((pending, opening) :: outer) := by
  rw [State.outerDepth, ← h]
  rfl

theorem plan_leftParen_of_factor {outer : List (Pending × Opening)} {pending : Pending}
    (hlt : State.depth ⟨outer, .factor pending⟩ < nestingLimit) (t : Token)
    (ht : t.lexeme = .leftParen) : State.plan ⟨outer, .factor pending⟩ t =
      .ok (.enter (State.fresh ((pending, .group) :: outer))) := by
  rw [State.plan]
  simp only [ht]
  exact if_pos hlt

theorem plan_leftParen_of_parenthesis {outer : List (Pending × Opening)} {pending : Pending}
    {name : String} {position : Nat}
    (hlt : State.depth ⟨outer, .parenthesis pending name position⟩ < nestingLimit) (t : Token)
    (ht : t.lexeme = .leftParen) : State.plan ⟨outer, .parenthesis pending name position⟩ t =
      .ok (.enter (State.fresh ((pending, .call name position) :: outer))) := by
  rw [State.plan]
  simp only [ht]
  exact if_pos hlt

theorem step_of_ne_leftParen {outer : List (Pending × Opening)} {pending : Pending}
    {name : String} {position : Nat} {p : Parser}
    (hlt : State.depth ⟨outer, .parenthesis pending name position⟩ < nestingLimit)
    (hkind : p.current.kind ≠ .leftParen) :
    Parser.step ⟨outer, .parenthesis pending name position⟩ p =
      .ended ⟨.error (.unexpected p.current.kind (.kind .leftParen) p.current.position), p, []⟩ := by
  refine Parser.step_of_not_admits ?_ fun hblocked => Nat.not_le.2 hlt hblocked.2
  rintro (hpush | ⟨-, hshape⟩)
  · cases hk : p.current.kind with
    | leftParen => exact hkind hk
    | _ => rw [hk] at hpush; cases hpush
  · cases congrArg Shape.stage hshape

mutual

theorem ending_expression (c : Counter) (levels : List (Pending × Opening))
    (hdepth : c.depth = State.outerDepth levels) :
    ending (State.fresh levels) c.parser = (expression (some nestingLimit) c).resume fun value c' =>
      ending ⟨levels, .operator none (.live value)⟩ c'.parser := by
  rw [expression, State.fresh, ending_term c levels none hdepth]
  refine resume_bind ((ensures_term _ c).and (restores_term _ c).ensures) fun value c' _ hc' => ?_
  exact ending_sums value c' levels none (.live value) hc'.1 (hc'.2.trans hdepth) rfl
termination_by 4 * c.remaining + 3
decreasing_by all_goals omega

theorem ending_sums (value : Float) (c : Counter) (levels : List (Pending × Opening))
    (sum : Option (Float × SumOp)) (product : Product) (hc : ¬ AtProduct c)
    (hdepth : c.depth = State.outerDepth levels) (hvalue : State.total sum product = value) :
    ending ⟨levels, .operator sum product⟩ c.parser =
      (sums (some nestingLimit) value c).resume fun value c' =>
        ending ⟨levels, .operator none (.live value)⟩ c'.parser := by
  rw [sums]
  split
  · next op position hcurrent =>
    have hplan : State.plan ⟨levels, .operator sum product⟩ ⟨.operator (.sum op), position⟩ =
        .ok (.enter ⟨levels, .factor { sum := some (value, op) }⟩) := by
      rw [← hvalue]
      rfl
    refine ending_leave hplan fun c' _ hc' => ?_
    rw [Parser.settled_enter, ending_term c' levels (some (value, op)) (hc'.trans hdepth)]
    refine resume_bind ((ensures_term _ c').and (restores_term _ c').ensures)
      fun right c'' _ hc'' => ?_
    exact ending_sums _ c'' levels _ _ hc''.1 (hc''.2.trans (hc'.trans hdepth)) rfl
  · exact Parser.ending_congr (step_operator_congr hc hvalue)
termination_by 4 * c.remaining
decreasing_by all_goals omega

theorem ending_term (c : Counter) (levels : List (Pending × Opening))
    (sum : Option (Float × SumOp)) (hdepth : c.depth = State.outerDepth levels) :
    ending ⟨levels, .factor { sum }⟩ c.parser =
      (term (some nestingLimit) c).resume fun value c' =>
        ending ⟨levels, .operator sum (.live value)⟩ c'.parser := by
  rw [term, ending_factor c levels { sum } hdepth]
  refine resume_bind (restores_factor _ c).ensures fun value c' _ hc' => ?_
  rw [settled_first]
  exact ending_products (.live value) c' levels sum (hc'.trans hdepth)
termination_by 4 * c.remaining + 2
decreasing_by all_goals omega

theorem ending_products (product : Product) (c : Counter) (levels : List (Pending × Opening))
    (sum : Option (Float × SumOp)) (hdepth : c.depth = State.outerDepth levels) :
    ending ⟨levels, .operator sum product⟩ c.parser =
      (products (some nestingLimit) product c).resume fun value c' =>
        ending ⟨levels, .operator sum (.live value)⟩ c'.parser := by
  rw [products]
  split
  · next op position hcurrent =>
    have hplan : State.plan ⟨levels, .operator sum product⟩ ⟨.operator (.product op), position⟩ =
        .ok (.enter ⟨levels, .factor { sum, product := some (product, op) }⟩) :=
      rfl
    refine ending_leave hplan fun c' _ hc' => ?_
    rw [Parser.settled_enter, ending_factor c' levels { sum, product := some (product, op) }
      (hc'.trans hdepth)]
    refine resume_bind (restores_factor _ c').ensures fun right c'' _ hc'' => ?_
    exact ending_products (product.fold op right) (c''.warn (product.warning? op right)) levels sum
      (hc''.trans (hc'.trans hdepth))
  · next hother =>
    have hproduct : ¬ AtProduct c := by
      rintro ⟨op, position, hc⟩
      exact hother op position hc
    exact Parser.ending_congr (step_operator_congr hproduct rfl)
termination_by 4 * c.remaining
decreasing_by all_goals first | omega | (rw [Counter.remaining_warn]; omega)

theorem ending_factor (c : Counter) (outer : List (Pending × Opening)) (pending : Pending)
    (hdepth : c.depth = State.depth ⟨outer, .factor pending⟩) :
    ending ⟨outer, .factor pending⟩ c.parser =
      (factor (some nestingLimit) c).resume fun value c' =>
        settled (.factor outer pending value) c'.parser := by
  rw [factor]
  split
  · exact ending_leave rfl fun c' _ _ => rfl
  · exact ending_leave rfl fun c' _ _ => rfl
  · next name position hcurrent =>
    have hplan : State.plan ⟨outer, .factor pending⟩ ⟨.name name, position⟩ =
        .ok (.enter ⟨outer, .parenthesis pending name position⟩) :=
      rfl
    refine ending_leave hplan fun c' _ hc' => ?_
    have hnested : ending ⟨outer, .parenthesis pending name position⟩ c'.parser =
        (nested (some nestingLimit) c' (parentheses (some nestingLimit) c'.opened)).resume
          fun x c'' => settled (.call outer pending name position x) c''.parser :=
      ending_nested (hc'.trans hdepth) rfl fun hlt =>
        ending_parentheses c'.opened outer pending (.call name position)
          (plan_leftParen_of_parenthesis hlt) (step_of_ne_leftParen hlt)
          (outerDepth_opened (hc'.trans hdepth))
    rw [Parser.settled_enter, hnested]
    exact resume_bind (restores_nested (restores_parentheses _ c'.opened)).ensures
      fun x c'' _ _ => settled_call outer pending name position x c''
  · next position hcurrent =>
    refine ending_nested hdepth (by rw [hcurrent]; rfl) fun hlt => ?_
    exact ending_parentheses c.opened outer pending .group (plan_leftParen_of_factor hlt)
      (fun hkind => absurd (congrArg Lookahead.kind hcurrent) hkind) (outerDepth_opened hdepth)
  · next position hcurrent =>
    refine ending_nested hdepth (by rw [hcurrent]; rfl) fun hlt => ?_
    exact ending_negation c.opened outer pending hcurrent hlt (by rw [Counter.opened, hdepth])
  · next hnumber hconstant hname hparen hminus =>
    refine ending_refuse (fun t ht => ?_) fun position _ => rfl
    obtain ⟨lexeme, position⟩ := t
    cases lexeme with
    | number value fractional => exact absurd ht (hnumber value fractional position)
    | constant k => exact absurd ht (hconstant k position)
    | name name => exact absurd ht (hname name position)
    | leftParen => exact absurd ht (hparen position)
    | rightParen => rfl
    | operator op =>
      rcases op with (_ | _) | op
      · rfl
      · exact absurd ht (hminus position)
      · rfl
termination_by 4 * c.remaining + 1
decreasing_by all_goals (rw [Counter.remaining_opened]; omega)

theorem ending_parentheses {s : State} (c : Counter) (outer : List (Pending × Opening))
    (pending : Pending) (opening : Opening)
    (hplan : ∀ t, t.lexeme = .leftParen →
      s.plan t = .ok (.enter (State.fresh ((pending, opening) :: outer))))
    (hrefuse : c.parser.current.kind ≠ .leftParen → Parser.step s c.parser =
      .ended ⟨.error (.unexpected c.parser.current.kind (.kind .leftParen)
        c.parser.current.position), c.parser, []⟩)
    (hdepth : c.depth = State.outerDepth ((pending, opening) :: outer)) :
    ending s c.parser = (parentheses (some nestingLimit) c).resume fun value c' =>
      settled (opening.closing outer pending value) c'.parser := by
  rw [parentheses, expect]
  split
  · next t ht =>
    split
    · next hkind =>
      refine ending_leave (hplan t (lexeme_of_kind_leftParen hkind)) fun c' _ hc' => ?_
      rw [Parser.settled_enter, ending_expression c' _ (hc'.trans hdepth)]
      exact resume_bind (ensures_expression _ c') fun value c'' _ hc'' => ending_close hc''
    · next hkind => exact Parser.ending_of_ended (hrefuse (by rw [ht]; exact hkind))
  · next position hend =>
    refine Parser.ending_of_ended (hrefuse ?_)
    rw [hend]
    intro h
    cases h
termination_by 4 * c.remaining
decreasing_by all_goals omega

theorem ending_negation (c : Counter) (outer : List (Pending × Opening)) (pending : Pending)
    {position : Nat} (hcurrent : c.parser.current = .token ⟨.operator (.sum .minus), position⟩)
    (hlt : State.depth ⟨outer, .factor pending⟩ < nestingLimit)
    (hdepth : c.depth = State.depth ⟨outer, .factor pending⟩ + 1) :
    ending ⟨outer, .factor pending⟩ c.parser =
      (negation (some nestingLimit) c).resume fun value c' =>
        settled (.factor outer pending value) c'.parser := by
  rw [negation, expect]
  split
  · next t ht =>
    cases hcurrent.symm.trans ht
    split
    · refine ending_leave (if_pos hlt) fun c' _ hc' => ?_
      rw [Parser.settled_enter, ending_factor c' outer
        { pending with negations := pending.negations + 1 } (hc'.trans hdepth)]
      exact resume_bind (restores_factor _ c').ensures fun value c'' _ _ => rfl
    · next hkind => exact absurd rfl hkind
  · next position' hend => cases hcurrent.symm.trans hend
termination_by 4 * c.remaining
decreasing_by all_goals omega

end

/-- After a whole expression, only the end of the input is accepted. -/
theorem ending_whole {c : Counter} {value : Float} (hc : ¬ AtOperator c) :
    ending ⟨[], .operator none (.live value)⟩ c.parser =
      (match c.parser.current with
        | .endOfInput _ => ok value c
        | .token _ => refuse (.kind .endOfInput) c : Return c Float).resume
          fun value c' => (.ok value, c'.parser) := by
  split
  · next position hend =>
    have hstep : Parser.step ⟨[], .operator none (.live value)⟩ c.parser =
        .ended ⟨.ok value, c.parser, [.read .endOfInput position]⟩ := by
      rw [Parser.step, hend]
      rfl
    exact Parser.ending_of_ended hstep
  · next t ht =>
    refine ending_refuse (fun t' ht' => ?_) fun position hend => ?_
    · obtain ⟨lexeme, position⟩ := t'
      cases lexeme with
      | operator op => exact absurd ⟨op, position, ht'⟩ hc
      | _ => rfl
    · cases ht.symm.trans hend

/-- The descent, kept to the nesting limit, ends as the evaluation does, with the same outcome and the
same parser. -/
theorem evaluate_eq_run (c : Counter) (hdepth : c.depth = 0) :
    (evaluate (some nestingLimit) c).result = c.parser.run.outcome ∧
      (evaluate (some nestingLimit) c).counter.parser = c.parser.run.parser := by
  have hending : ending (State.fresh []) c.parser =
      (evaluate (some nestingLimit) c).resume fun value c' => (.ok value, c'.parser) := by
    rw [ending_expression c [] hdepth, evaluate]
    exact resume_bind (ensures_expression _ c) fun value c' _ hc' => ending_whole hc'
  have hresume := resume_eq (evaluate (some nestingLimit) c)
  rw [← hending] at hresume
  exact ⟨(congrArg Prod.fst hresume).symm, (congrArg Prod.snd hresume).symm⟩

end Descent

end DeskCalculator
