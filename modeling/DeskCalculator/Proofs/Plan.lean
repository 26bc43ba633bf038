import DeskCalculator.Proofs.Beginning.Value

/-!
# What comes next in a state

A token, or the end of the input, is judged by what is expected of it: it may ask for a level that
cannot be opened any more (`Blocked`), or be of a kind that cannot follow; else it is planned. The
move then leads to the value of the beginning with that token (`exists_plan_eq_ok`), unless the token
closes a call that has none (`Faulty`).
-/

namespace DeskCalculator

open Beginning (Waiting Front join complete)

/-! ## Where a level is asked for, and what is expected -/

namespace State

/-- Whether a token of some kind, or the end, asks for a level that may not be opened any more. -/
def Blocked (s : State) (k : Kind) : Prop :=
  s.phase.stage.opens k = true ∧ nestingLimit ≤ s.depth

/-- What an error says would have been accepted. -/
def expected (s : State) : Expected :=
  match s.phase, s.outer with
  | .factor _, _ => .factor
  | .parenthesis _ _ _, _ => .kind .leftParen
  | .operator _ _, [] => .kind .endOfInput
  | .operator _ _, _ :: _ => .kind .rightParen

theorem plan_of_blocked {s : State} {t : Token} (h : s.Blocked t.kind) :
    s.plan t = .error (.tooNested t.position nestingLimit) := by
  obtain ⟨outer, phase⟩ := s
  obtain ⟨lexeme, position⟩ := t
  obtain ⟨hopens, hdepth⟩ := h
  cases phase with
  | factor pending =>
    cases lexeme with
    | number value fractional => cases fractional <;> cases hopens
    | leftParen => exact if_neg (Nat.not_lt.2 hdepth)
    | operator op =>
      rcases op with (_ | _) | op
      · cases hopens
      · exact if_neg (Nat.not_lt.2 hdepth)
      · cases hopens
    | _ => cases hopens
  | parenthesis pending name position => exact if_neg (Nat.not_lt.2 hdepth)
  | operator sum product => cases hopens

/-- A token whose kind the shape of the state does not admit is refused, where no limit is in the
way. -/
theorem plan_of_not_admits {s : State} {t : Token} (ht : ¬ s.shape.Admits t.kind)
    (hs : ¬ s.Blocked t.kind) :
    s.plan t = .error (.unexpected t.kind s.expected t.position) := by
  obtain ⟨outer, phase⟩ := s
  obtain ⟨lexeme, position⟩ := t
  have hlt : phase.stage.opens lexeme.kind = true → State.depth ⟨outer, phase⟩ < nestingLimit :=
    fun hopens => Nat.lt_of_not_le fun hle => hs ⟨hopens, hle⟩
  cases phase with
  | factor pending =>
    cases lexeme with
    | number value fractional => cases fractional <;> exact absurd (.inl rfl) ht
    | operator op =>
      rcases op with (_ | _) | op
      · rfl
      · exact absurd (.inl rfl) ht
      · rfl
    | rightParen => rfl
    | _ => exact absurd (.inl rfl) ht
  | parenthesis pending name position' =>
    cases lexeme with
    | leftParen => exact absurd (.inl rfl) ht
    | _ => exact if_pos (hlt rfl)
  | operator sum product =>
    cases lexeme with
    | operator op => exact absurd (.inl rfl) ht
    | rightParen =>
      rcases outer with _ | ⟨level, outer⟩
      · rfl
      · exact absurd (.inl rfl) ht
    | _ => rcases outer with _ | ⟨level, outer⟩ <;> rfl

theorem finish_of_blocked {s : State} (h : s.Blocked .endOfInput) (position : Nat) :
    s.finish position = .error (.tooNested position nestingLimit) := by
  obtain ⟨outer, phase⟩ := s
  obtain ⟨hopens, hdepth⟩ := h
  cases phase with
  | parenthesis pending name position' => exact if_neg (Nat.not_lt.2 hdepth)
  | _ => cases hopens

/-- The end of the input is refused where the shape of the state does not admit it. -/
theorem finish_of_not_admits {s : State} (hend : ¬ s.shape.Admits .endOfInput)
    (hs : ¬ s.Blocked .endOfInput) (position : Nat) :
    s.finish position = .error (.unexpected .endOfInput s.expected position) := by
  obtain ⟨outer, phase⟩ := s
  cases phase with
  | factor pending => rfl
  | parenthesis pending name position' =>
    exact if_pos (Nat.lt_of_not_le fun hle => hs ⟨rfl, hle⟩)
  | operator sum product =>
    rcases outer with _ | ⟨level, outer⟩
    · exact absurd (.inr ⟨rfl, rfl⟩) hend
    · rfl

end State

namespace Beginning

/-! ## What a token does -/

/-- The state and the warnings that a move leads to, if it can be carried out. -/
def result? (move : Move) (ws : List Warning) : Option (State × List Warning) :=
  move.perform.toOption.map fun effect => (effect.state, ws ++ effect.warning?.toList)

theorem result?_enter (next : State) (ws : List Warning) :
    result? (.enter next) ws = some (next, ws) := by
  rw [result?, Move.perform]
  simp [Except.toOption]

theorem result?_factor (outer : List (Pending × Opening)) (pending : Pending) (value : Float)
    (ws : List Warning) :
    result? (.factor outer pending value) ws =
      some ((State.complete outer pending value).1,
        ws ++ (State.complete outer pending value).2.toList) :=
  rfl

theorem result?_call (outer : List (Pending × Opening)) (pending : Pending) (name : String)
    (position : Nat) (x : Float) (ws : List Warning) :
    result? (.call outer pending name position x) ws = (do
      let f ← MathFunction.ofName? name
      let value ← f.valueAt? x
      result? (.factor outer pending value) ws) := by
  rw [result?, Move.perform]
  rcases MathFunction.ofName? name with _ | f
  · rfl
  rcases hv : f.valueAt? x with _ | value
  · simp [hv, Except.toOption]
  · simp [hv, Except.toOption, result?_factor]

theorem eval?_complete_of_some {outer : List (Waiting × Opening)} {waiting : Waiting}
    {levels : List (Pending × Opening)} {pending : Pending} {ws ws' : List Warning}
    (houter : outerValue? outer = some (levels, ws)) (hwaiting : waiting.eval? = some (pending, ws'))
    (f : Factor) :
    (complete outer waiting f).eval? = (do
      let (value, ws'') ← f.eval?
      result? (.factor levels pending value) (ws ++ ws' ++ ws'')) := by
  rw [eval?_complete]
  simp only [houter, hwaiting, Option.bind_eq_bind, Option.bind_some]
  rfl

/-- The call that the next parenthesis closes has no value, for the reason that an error gives. -/
inductive Faulty : Beginning → Error → Prop
  | unknownFunction {outer : List (Waiting × Opening)} {waiting : Waiting} {name : String}
      {position : Nat} {sum : Option (Expression × SumOp)} {product : Term}
      (hname : MathFunction.ofName? name = none) :
      Faulty ⟨(waiting, .call name position) :: outer, .operator sum product⟩
        (.unknownFunction name position)
  | outsideDomain {outer : List (Waiting × Opening)} {waiting : Waiting} {name : String}
      {position : Nat} {sum : Option (Expression × SumOp)} {product : Term} {f : MathFunction}
      {x : Float} {ws : List Warning} (hname : MathFunction.ofName? name = some f)
      (hargument : (join sum product).eval? = some (x, ws)) (hvalue : f.valueAt? x = none) :
      Faulty ⟨(waiting, .call name position) :: outer, .operator sum product⟩ (.outsideDomain f x)

theorem faulty_of_perform_call {outer : List (Waiting × Opening)} {waiting : Waiting}
    {levels : List (Pending × Opening)} {pending : Pending} {name : String} {position : Nat}
    {sum : Option (Expression × SumOp)} {product : Term} {x : Float} {ws : List Warning} {e : Error}
    (hargument : (join sum product).eval? = some (x, ws))
    (h : (Move.call levels pending name position x).perform = .error e) :
    Faulty ⟨(waiting, .call name position) :: outer, .operator sum product⟩ e := by
  rw [Move.perform] at h
  rcases hname : MathFunction.ofName? name with _ | f
  · rw [hname] at h
    cases h
    exact .unknownFunction hname
  · rw [hname] at h
    rcases hvalue : f.valueAt? x with _ | value
    · simp only [hvalue, Except.error.injEq] at h
      subst h
      exact .outsideDomain hname hargument hvalue
    · simp [hvalue] at h

theorem perform_enter_ne (next : State) (e : Error) : (Move.enter next).perform ≠ .error e := by
  intro h
  cases h

theorem perform_factor_ne (outer : List (Pending × Opening)) (pending : Pending) (value : Float)
    (e : Error) : (Move.factor outer pending value).perform ≠ .error e := by
  intro h
  cases h

/-- The call that a parenthesis would close, its name and its argument. -/
def call? (b : Beginning) : Option (String × Expression) :=
  match b.front, b.outer with
  | .operator sum product, (_, .call name _) :: _ => some (name, join sum product)
  | _, _ => none

/-- The move that a token leads to from one beginning, with some warnings, to the next: one case for each
kind of move, with the values of the parts that it carries. -/
inductive Planned (ws : List Warning) : Beginning → Token → Beginning → Move → Prop
  | enter {b b' : Beginning} {t : Token} {next : State} (ht : t.lexeme ≠ .rightParen)
      (hfront : b'.front.stage ≠ .operator) (hvalue : b'.eval? = some (next, ws)) :
      Planned ws b t b' (.enter next)
  | factor {b : Beginning} {t : Token} {outer : List (Waiting × Opening)} {waiting : Waiting}
      {f : Factor} {levels : List (Pending × Opening)} {pending : Pending} {value : Float}
      {ws₁ ws₂ ws₃ : List Warning} (hcall : b.call? = none)
      (houter : outerValue? outer = some (levels, ws₁)) (hwaiting : waiting.eval? = some (pending, ws₂))
      (hf : f.eval? = some (value, ws₃)) (hws : ws = ws₁ ++ ws₂ ++ ws₃) :
      Planned ws b t (complete outer waiting f) (.factor levels pending value)
  | call {t : Token} {outer : List (Waiting × Opening)} {waiting : Waiting} {name : String}
      {position : Nat} {sum : Option (Expression × SumOp)} {product : Term}
      {levels : List (Pending × Opening)} {pending : Pending} {x : Float} {ws₁ ws₂ ws₃ : List Warning}
      (ht : t.lexeme = .rightParen) (houter : outerValue? outer = some (levels, ws₁))
      (hwaiting : waiting.eval? = some (pending, ws₂))
      (hargument : (join sum product).eval? = some (x, ws₃)) (hws : ws = ws₁ ++ ws₂ ++ ws₃) :
      Planned ws ⟨(waiting, .call name position) :: outer, .operator sum product⟩ t
        (complete outer waiting (.call name (join sum product))) (.call levels pending name position x)

/-- A token that the grammar admits and no limit forbids is planned. -/
theorem exists_planned {b b' : Beginning} {s : State} {ws : List Warning} {t : Token}
    (h : b.eval? = some (s, ws)) (hb : b.push t = some b') (hs : ¬ s.Blocked t.kind) :
    ∃ move, s.plan t = .ok move ∧ Planned ws b t b' move := by
  obtain ⟨levels, phase⟩ := s
  obtain ⟨ws₁, ws₂, houter, hfront, rfl⟩ := eval?_eq_some h
  have hlt : phase.stage.opens t.kind = true → State.depth ⟨levels, phase⟩ < nestingLimit :=
    fun hopens => Nat.lt_of_not_le fun hle => hs ⟨hopens, hle⟩
  cases pushed_of_push hb with
  | number outer waiting value fractional position =>
    obtain ⟨⟨pending, ws₃⟩, hwaiting, hphase⟩ := Option.bind_eq_some_iff.1 hfront
    cases hphase
    exact ⟨_, rfl, .factor rfl houter hwaiting rfl (List.append_nil _).symm⟩
  | constant outer waiting c position =>
    obtain ⟨⟨pending, ws₃⟩, hwaiting, hphase⟩ := Option.bind_eq_some_iff.1 hfront
    cases hphase
    exact ⟨_, rfl, .factor rfl houter hwaiting rfl (List.append_nil _).symm⟩
  | name outer waiting name position =>
    obtain ⟨⟨pending, ws₃⟩, hwaiting, hphase⟩ := Option.bind_eq_some_iff.1 hfront
    cases hphase
    refine ⟨_, rfl, .enter (by rintro ⟨⟩) (by rintro ⟨⟩) ?_⟩
    exact eval?_mk houter (by simp [Front.eval?, hwaiting])
  | group outer waiting position =>
    obtain ⟨⟨pending, ws₃⟩, hwaiting, hphase⟩ := Option.bind_eq_some_iff.1 hfront
    cases hphase
    refine ⟨_, if_pos (hlt rfl), .enter (by rintro ⟨⟩) (by rintro ⟨⟩) ?_⟩
    exact eval?_fresh .group houter hwaiting
  | minus outer waiting position =>
    obtain ⟨⟨pending, ws₃⟩, hwaiting, hphase⟩ := Option.bind_eq_some_iff.1 hfront
    cases hphase
    refine ⟨_, if_pos (hlt rfl), .enter (by rintro ⟨⟩) (by rintro ⟨⟩) ?_⟩
    exact eval?_mk houter (by simp [Front.eval?, Waiting.eval?_negations hwaiting])
  | call outer waiting name position position' =>
    obtain ⟨⟨pending, ws₃⟩, hwaiting, hphase⟩ := Option.bind_eq_some_iff.1 hfront
    cases hphase
    refine ⟨_, if_pos (hlt rfl), .enter (by rintro ⟨⟩) (by rintro ⟨⟩) ?_⟩
    exact eval?_fresh (.call name position) houter hwaiting
  | product outer sum product op position =>
    obtain ⟨sum', product', ws₃, ws₄, hsum, hproduct, hphase, hws⟩ := eval?_operator_eq_some hfront
    cases hphase
    cases hws
    refine ⟨_, rfl, .enter (by rintro ⟨⟩) (by rintro ⟨⟩) ?_⟩
    exact eval?_mk houter (by simp [Front.eval?, Waiting.eval?, productValue?, hsum, hproduct])
  | sum outer sum product op position =>
    obtain ⟨sum', product', ws₃, ws₄, hsum, hproduct, hphase, hws⟩ := eval?_operator_eq_some hfront
    cases hphase
    cases hws
    have hjoin := eval?_join_of_some hsum hproduct
    refine ⟨_, rfl, .enter (by rintro ⟨⟩) (by rintro ⟨⟩) ?_⟩
    exact eval?_mk houter (by simp [Front.eval?, Waiting.eval?, sumValue?, productValue?, hjoin])
  | groupEnd outer waiting sum product position =>
    obtain ⟨sum', product', ws₃, ws₄, hsum, hproduct, hphase, hws⟩ := eval?_operator_eq_some hfront
    cases hphase
    cases hws
    obtain ⟨levels', pending, ws₅, ws₆, houter', hwaiting, rfl, rfl⟩ :=
      outerValue?_cons_eq_some houter
    exact ⟨_, rfl, .factor rfl houter' hwaiting (eval?_join_of_some hsum hproduct) rfl⟩
  | callEnd outer waiting name position sum product position' =>
    obtain ⟨sum', product', ws₃, ws₄, hsum, hproduct, hphase, hws⟩ := eval?_operator_eq_some hfront
    cases hphase
    cases hws
    obtain ⟨levels', pending, ws₅, ws₆, houter', hwaiting, rfl, rfl⟩ :=
      outerValue?_cons_eq_some houter
    exact ⟨_, rfl, .call rfl houter' hwaiting (eval?_join_of_some hsum hproduct) rfl⟩

/-- The move that a token leads to leads to the value of the beginning with that token; if the move cannot
be carried out, the token closes a faulty call. -/
theorem exists_plan_eq_ok {b b' : Beginning} {s : State} {ws : List Warning} {t : Token}
    (h : b.eval? = some (s, ws)) (hb : b.push t = some b') (hs : ¬ s.Blocked t.kind) :
    ∃ move, s.plan t = .ok move ∧ b'.eval? = result? move ws ∧
      ∀ e, move.perform = .error e → t.lexeme = .rightParen ∧ b.Faulty e := by
  obtain ⟨move, hplan, hplanned⟩ := exists_planned h hb hs
  refine ⟨move, hplan, ?_⟩
  cases hplanned with
  | enter _ _ hvalue =>
    refine ⟨?_, fun e he => absurd he (perform_enter_ne _ e)⟩
    rw [result?_enter, hvalue]
  | factor _ houter hwaiting hf hws =>
    refine ⟨?_, fun e he => absurd he (perform_factor_ne _ _ _ e)⟩
    rw [eval?_complete_of_some houter hwaiting, hf, hws]
    rfl
  | call ht houter hwaiting hargument hws =>
    refine ⟨?_, fun e he => ⟨ht, faulty_of_perform_call hargument he⟩⟩
    rw [eval?_complete_of_some houter hwaiting, result?_call, hws]
    simp [Factor.eval?, hargument, Option.bind_assoc]

end Beginning

end DeskCalculator
