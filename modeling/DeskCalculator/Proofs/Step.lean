import DeskCalculator.Evaluation.Parser
import DeskCalculator.Proofs.Plan
import DeskCalculator.Proofs.Readings

/-!
# Steps where a beginning stands

The readings of a parser are the token that stands next and those that its stream still holds. What a
step does depends on that token, on whether the one after it can be read, and on the beginning whose
value the state is: `Judged` has one case for each way in which an evaluation ends, and one for the
step that goes on (`judged_step`).
-/

namespace DeskCalculator

open Beginning (Waiting Front join complete)

/-- The record of a token that is left behind. -/
def Token.record (t : Token) : Record :=
  .read t.kind t.position

namespace Parser

/-! ## Readings -/

/-- The readings of a parser: the token that stands next, then those of its stream. -/
def reading (p : Parser) : Nat → Except LexicalError Lookahead
  | 0 => .ok p.current
  | i + 1 => p.stream.reading i

/-- The parser whose token has been left behind for the next reading. -/
def advance (p : Parser) (current : Lookahead) : Parser :=
  { p with current, stream := p.stream.next.2 }

/-- The parser whose next reading has been made, while its token stays. -/
def skip (p : Parser) : Parser :=
  { p with stream := p.stream.next.2 }

theorem reading_advance {p : Parser} {current : Lookahead} (h : p.reading 1 = .ok current)
    (i : Nat) : (p.advance current).reading i = p.reading (i + 1) := by
  cases i with
  | zero => exact h.symm
  | succ i => exact p.stream.reading_next i

theorem reading_of_start {text : String} {p : Parser} (h : start text = .ok p) :
    p.reading = (TokenStream.ofString text).reading ∧ p.warnings = [] := by
  have hfst := (TokenStream.ofString text).next_fst
  have hsnd := (TokenStream.ofString text).reading_next
  unfold start at h
  split at h
  · next current stream hnext =>
    cases h
    rw [hnext] at hfst hsnd
    refine ⟨funext fun i => ?_, rfl⟩
    cases i with
    | zero => exact hfst
    | succ i => exact hsnd i
  · cases h

theorem start_eq_error {text : String} {e : LexicalError} :
    start text = .error e ↔ (TokenStream.ofString text).reading 0 = .error e := by
  rw [← TokenStream.next_fst, start]
  split
  · next current stream hnext => simp [hnext]
  · next e' stream hnext => simp [hnext]

/-! ## Steps -/

/-- What a step makes of a parser where a beginning stands that is worth a state and warnings: one
case for each way in which the evaluation ends, and one for going on. -/
inductive Judged (b : Beginning) (s : State) (ws : List Warning) (p : Parser) : Progress → Prop
  | tooNested (hblocked : s.Blocked p.current.kind) :
      Judged b s ws p (.ended ⟨.error (.tooNested p.current.position nestingLimit), p, []⟩)
  | unexpected (hblocked : ¬ s.Blocked p.current.kind) (hkind : ¬ b.shape.Admits p.current.kind) :
      Judged b s ws p
        (.ended ⟨.error (.unexpected p.current.kind s.expected p.current.position), p, []⟩)
  | finished {position : Nat} {sum : Option (Expression × SumOp)} {product : Term} {value : Float}
      (hcurrent : p.current = .endOfInput position) (hb : b = ⟨[], .operator sum product⟩)
      (hs : s.depth = 0) (hvalue : (join sum product).eval? = some (value, ws)) :
      Judged b s ws p (.ended ⟨.ok value, p, [.read .endOfInput position]⟩)
  | unreadable {t : Token} {b' : Beginning} {e : LexicalError} (hcurrent : p.current = .token t)
      (hblocked : ¬ s.Blocked t.kind) (hpush : b.push t = some b') (hnext : p.reading 1 = .error e) :
      Judged b s ws p (.ended ⟨.error (.lexical e), p.skip, []⟩)
  | faulty {t : Token} {b' : Beginning} {current : Lookahead} {e : Error}
      (hcurrent : p.current = .token t) (hblocked : ¬ s.Blocked t.kind) (hpush : b.push t = some b')
      (hclose : t.lexeme = .rightParen) (hnext : p.reading 1 = .ok current)
      (hvalue : b'.eval? = none) (hfaulty : b.Faulty e) :
      Judged b s ws p (.ended ⟨.error e, p.advance current, [t.record]⟩)
  | passed {t : Token} {b' : Beginning} {current : Lookahead} {effect : Effect}
      (hcurrent : p.current = .token t) (hblocked : ¬ s.Blocked t.kind) (hpush : b.push t = some b')
      (hnext : p.reading 1 = .ok current)
      (hvalue : b'.eval? = some (effect.state, ws ++ effect.warning?.toList)) :
      Judged b s ws p
        (.continued effect.state
          { p.advance current with warnings := p.warnings ++ effect.warning?.toList }
          (t.record :: effect.records))

/-- At the end of the input, a whole expression ends the evaluation with its value. -/
theorem step_finished {sum : Option (Expression × SumOp)} {product : Term} {s : State}
    {ws : List Warning} {p : Parser} {position : Nat}
    (h : Beginning.eval? ⟨[], .operator sum product⟩ = some (s, ws))
    (hcurrent : p.current = .endOfInput position) :
    ∃ value, (join sum product).eval? = some (value, ws) ∧ s.depth = 0 ∧
      step s p = .ended ⟨.ok value, p, [.read .endOfInput position]⟩ := by
  obtain ⟨outer, phase⟩ := s
  obtain ⟨ws₁, ws₂, houter, hfront, rfl⟩ := Beginning.eval?_eq_some h
  obtain ⟨sum', product', ws₃, ws₄, hsum, hproduct, hphase, rfl⟩ :=
    Beginning.eval?_operator_eq_some hfront
  cases houter
  cases hphase
  have hjoin := Beginning.eval?_join_of_some hsum hproduct
  refine ⟨State.total sum' product', hjoin, rfl, ?_⟩
  rw [step, hcurrent]
  rfl

theorem judged_finished {b : Beginning} {s : State} {ws : List Warning} {p : Parser} {position : Nat}
    (h : b.eval? = some (s, ws)) (hcurrent : p.current = .endOfInput position)
    (hadmits : b.shape.Admits .endOfInput) : Judged b s ws p (step s p) := by
  obtain ⟨sum, product, rfl⟩ := Beginning.eq_operator_of_admits hadmits
  obtain ⟨value, hvalue, hdepth, hstep⟩ := step_finished h hcurrent
  rw [hstep]
  exact .finished hcurrent rfl hdepth hvalue

theorem step_of_unreadable {s : State} {p : Parser} {t : Token} {move : Move} {e : LexicalError}
    (hcurrent : p.current = .token t) (hplan : s.plan t = .ok move) (hnext : p.reading 1 = .error e) :
    step s p = .ended ⟨.error (.lexical e), p.skip, []⟩ := by
  have hfst : p.stream.next.1 = .error e := p.stream.next_fst.trans hnext
  rcases hstream : p.stream.next with ⟨next, stream⟩
  rw [hstream] at hfst
  subst hfst
  simp only [step, hcurrent, hplan, hstream, skip]

/-- A token that is planned before a reading is left behind, and its move is carried out. -/
theorem step_of_readable {s : State} {p : Parser} {t : Token} {move : Move} {current : Lookahead}
    (hcurrent : p.current = .token t) (hplan : s.plan t = .ok move)
    (hnext : p.reading 1 = .ok current) : step s p =
      match move.perform with
      | .error e => .ended ⟨.error e, p.advance current, [t.record]⟩
      | .ok effect => .continued effect.state
          { p.advance current with warnings := p.warnings ++ effect.warning?.toList }
          (t.record :: effect.records) := by
  have hfst : p.stream.next.1 = .ok current := p.stream.next_fst.trans hnext
  rcases hstream : p.stream.next with ⟨next, stream⟩
  rw [hstream] at hfst
  subst hfst
  simp only [step, hcurrent, hplan, hstream, advance]
  cases move.perform <;> rfl

/-- A token that can be added where no limit is in the way. -/
theorem judged_pushed {b b' : Beginning} {s : State} {ws : List Warning} {p : Parser} {t : Token}
    (h : b.eval? = some (s, ws)) (hcurrent : p.current = .token t) (hblocked : ¬ s.Blocked t.kind)
    (hpush : b.push t = some b') : Judged b s ws p (step s p) := by
  obtain ⟨move, hplan, hvalue, hfaulty⟩ := Beginning.exists_plan_eq_ok h hpush hblocked
  rcases hnext : p.reading 1 with e | current
  · rw [step_of_unreadable hcurrent hplan hnext]
    exact .unreadable hcurrent hblocked hpush hnext
  rw [step_of_readable hcurrent hplan hnext]
  rcases hperform : move.perform with e | effect
  · obtain ⟨hclose, hfaulty⟩ := hfaulty e hperform
    refine .faulty hcurrent hblocked hpush hclose hnext ?_ hfaulty
    rw [hvalue, Beginning.result?, hperform]
    rfl
  · refine .passed hcurrent hblocked hpush hnext ?_
    rw [hvalue, Beginning.result?, hperform]
    rfl

theorem step_of_blocked {s : State} {p : Parser} (h : s.Blocked p.current.kind) :
    step s p = .ended ⟨.error (.tooNested p.current.position nestingLimit), p, []⟩ := by
  rw [step]
  rcases hcurrent : p.current with t | position
  · rw [hcurrent] at h
    simp only [State.plan_of_blocked h]
    rfl
  · rw [hcurrent] at h
    simp only [State.finish_of_blocked h]
    rfl

theorem step_of_not_admits {s : State} {p : Parser} (hkind : ¬ s.shape.Admits p.current.kind)
    (hblocked : ¬ s.Blocked p.current.kind) : step s p =
      .ended ⟨.error (.unexpected p.current.kind s.expected p.current.position), p, []⟩ := by
  rw [step]
  rcases hcurrent : p.current with t | position
  · rw [hcurrent] at hkind hblocked
    simp only [State.plan_of_not_admits hkind hblocked]
    rfl
  · rw [hcurrent] at hkind hblocked
    simp only [State.finish_of_not_admits hkind hblocked]
    rfl

/-- What a step does where a beginning stands. -/
theorem judged_step {b : Beginning} {s : State} {ws : List Warning} (h : b.eval? = some (s, ws))
    (p : Parser) : Judged b s ws p (step s p) := by
  have hshape := Beginning.shape_eval? h
  by_cases hblocked : s.Blocked p.current.kind
  · rw [step_of_blocked hblocked]
    exact .tooNested hblocked
  by_cases hkind : s.shape.Admits p.current.kind
  · rcases hcurrent : p.current with t | position
    · rw [hcurrent] at hblocked hkind
      obtain ⟨b', hpush⟩ := Beginning.exists_push_of_admits (hshape ▸ hkind)
      exact judged_pushed h hcurrent hblocked hpush
    · rw [hcurrent] at hkind
      exact judged_finished h hcurrent (hshape ▸ hkind)
  · rw [step_of_not_admits hkind hblocked]
    exact .unexpected hblocked (hshape ▸ hkind)

end Parser

end DeskCalculator
