import DeskCalculator.Proofs.FirstError

/-!
# What there is to tell

When a token is left behind, there is to tell what it has made complete: the call that it closes, and then
the operator whose right operand it ends, if that has something to report (`Occasion`). This is just what
its move tells when it is carried out (`occasion_concat_iff`).
-/

namespace DeskCalculator

open Beginning (Waiting join complete)

/-! ## Occasions -/

/-- The warning of which a record tells. -/
def Record.warning? : Record → Option Warning
  | .warned w => some w
  | _ => none

/-- Whether a record tells of a call or of a warning. -/
def Record.isEvent : Record → Bool
  | .called _ => true
  | .warned _ => true
  | _ => false

/-- What there is to tell of some tokens when the last of them is left behind. -/
inductive Occasion (ts : List Token) : Record → Prop
  /-- The last tokens are a call that has a value. -/
  | called {before rest : List Token} {name : String} {position : Nat} {argument : Expression}
      {f : MathFunction} {x value : Float} {ws : List Warning}
      (hts : ts = before ++ ⟨.name name, position⟩ :: rest)
      (hcall : (⟨.name name, position⟩ :: rest).map Token.lexeme = (Factor.call name argument).lexemes)
      (hname : MathFunction.ofName? name = some f) (hargument : argument.eval? = some (x, ws))
      (hvalue : f.valueAt? x = some value) : Occasion ts (.called ⟨f, x, value⟩)
  /-- The last tokens are the right operand of an operator that reports a warning of its own, behind those
  of its operands. -/
  | warned {before operand : List Token} {outer : List (Waiting × Opening)}
      {sum : Option (Expression × SumOp)} {left : Term} {op : ProductOp} {right : Factor}
      {p p' : Product} {value : Float} {ws₁ ws₂ : List Warning} {w : Warning}
      (hts : ts = before ++ operand)
      (hbefore : Beginning.read? {} before = some ⟨outer, .factor { sum, product := some (left, op) }⟩)
      (hoperand : operand.map Token.lexeme = right.lexemes) (hleft : left.eval? = some (p, ws₁))
      (hright : right.eval? = some (value, ws₂))
      (hterm : (Term.product left op right).eval? = some (p', ws₁ ++ ws₂ ++ [w])) :
      Occasion ts (.warned w)

theorem Occasion.isEvent {ts : List Token} {r : Record} (h : Occasion ts r) : r.isEvent = true := by
  cases h <;> rfl

theorem Record.isRead_of_isEvent {r : Record} (h : r.isEvent = true) : r.isRead = false := by
  cases r <;> first | rfl | cases h

theorem not_occasion_nil (r : Record) : ¬ Occasion [] r := by
  intro h
  cases h with
  | called hts => exact absurd hts.symm (by simp)
  | warned hts hbefore hoperand =>
    obtain ⟨rfl, -⟩ := List.append_eq_nil_iff.1 hts.symm
    cases hbefore

/-! ## What a move tells -/

theorem Term.eval?_product_iff {left : Term} {op : ProductOp} {right : Factor} {p : Product}
    {value : Float} {ws₁ ws₂ : List Warning} {w : Warning} (hleft : left.eval? = some (p, ws₁))
    (hright : right.eval? = some (value, ws₂)) :
    (∃ p', (Term.product left op right).eval? = some (p', ws₁ ++ ws₂ ++ [w])) ↔
      p.warning? op value = some w := by
  rw [Term.eval?_product, hleft, hright]
  rcases hwarning : p.warning? op value with _ | w' <;> simp [hwarning]

namespace Beginning

/-- Whether the operator whose right operand has just been completed reports a warning of its own, behind
those of its operands. -/
inductive Reports : Beginning → Warning → Prop
  | product {outer : List (Waiting × Opening)} {sum : Option (Expression × SumOp)} {left : Term}
      {op : ProductOp} {right : Factor} {p p' : Product} {value : Float} {ws₁ ws₂ : List Warning}
      {w : Warning} (hleft : left.eval? = some (p, ws₁)) (hright : right.eval? = some (value, ws₂))
      (hterm : (Term.product left op right).eval? = some (p', ws₁ ++ ws₂ ++ [w])) :
      Reports ⟨outer, .operator sum (.product left op right)⟩ w

theorem reports_complete_iff {outer : List (Waiting × Opening)} {waiting : Waiting} {f : Factor}
    {pending : Pending} {ws : List Warning} (levels : List (Pending × Opening)) {w : Warning}
    (hwaiting : waiting.eval? = some (pending, ws)) :
    (complete outer waiting f).Reports w ↔
      ∃ value ws', f.eval? = some (value, ws') ∧
        (State.complete levels pending value).2 = some w := by
  obtain ⟨sum, product, negations⟩ := waiting
  obtain ⟨⟨sum', ws₁⟩, -, hwaiting⟩ := Option.bind_eq_some_iff.1 hwaiting
  obtain ⟨⟨product', ws₂⟩, hproduct, hwaiting⟩ := Option.bind_eq_some_iff.1 hwaiting
  cases hwaiting
  cases product with
  | none =>
    cases hproduct
    constructor
    · intro h
      cases h
    · rintro ⟨value, ws', -, h⟩
      cases h
  | some joined =>
    obtain ⟨left, op⟩ := joined
    obtain ⟨⟨p, ws₃⟩, hleft, hproduct⟩ := Option.bind_eq_some_iff.1 hproduct
    cases hproduct
    constructor
    · intro h
      cases h with
      | product hleft' hright hterm =>
        cases hleft.symm.trans hleft'
        have hwarning := (Term.eval?_product_iff hleft hright).1 ⟨_, hterm⟩
        rw [Factor.eval?_negated] at hright
        obtain ⟨⟨value, ws'⟩, hf, hvalue⟩ := Option.map_eq_some_iff.1 hright
        cases hvalue
        exact ⟨value, ws', hf, hwarning⟩
    · rintro ⟨value, ws', hf, hwarning⟩
      have hright : (f.negated negations).eval? = some (State.negate value negations, ws') := by
        rw [Factor.eval?_negated, hf]
        rfl
      obtain ⟨p', hterm⟩ := (Term.eval?_product_iff hleft hright).2 hwarning
      exact .product hleft hright hterm

/-- A move reports a warning exactly if the operator reports it whose right operand it completes. -/
theorem Planned.warned_iff {ws : List Warning} {b b' : Beginning} {t : Token} {move : Move}
    (h : Planned ws b t b' move) (w : Warning) :
    (∃ effect, move.perform = .ok effect ∧ effect.warning? = some w) ↔ b'.Reports w := by
  cases h with
  | enter ht hfront hvalue =>
    constructor
    · rintro ⟨effect, heffect, hwarning⟩
      cases heffect
      cases hwarning
    · intro hreports
      cases hreports
      exact absurd rfl hfront
  | @factor _ _ _ _ _ levels _ value _ _ _ hcall houter hwaiting hf hws =>
    rw [reports_complete_iff levels hwaiting, hf]
    constructor
    · rintro ⟨effect, heffect, hwarning⟩
      cases heffect
      exact ⟨_, _, rfl, hwarning⟩
    · rintro ⟨value', ws', heq, hwarning⟩
      cases heq
      exact ⟨_, rfl, hwarning⟩
  | @call _ _ _ name _ _ _ levels _ x _ _ _ ht houter hwaiting hargument hws =>
    rw [reports_complete_iff levels hwaiting, Factor.eval?, hargument, Move.perform]
    rcases hname : MathFunction.ofName? name with _ | f
    · simp
    rcases hvalue : f.valueAt? x with _ | value
    · simp [hvalue]
    · simp [hvalue]

/-- A move calls a function exactly if the token closes the call and its argument has a value there. -/
theorem Planned.called_iff {ws : List Warning} {b b' : Beginning} {t : Token} {move : Move}
    (h : Planned ws b t b' move) (c : Call) :
    (∃ effect, move.perform = .ok effect ∧ effect.call? = some c) ↔
      t.lexeme = .rightParen ∧ ∃ name argument ws', b.call? = some (name, argument) ∧
        MathFunction.ofName? name = some c.f ∧ argument.eval? = some (c.argument, ws') ∧
          c.f.valueAt? c.argument = some c.value := by
  cases h with
  | enter ht hfront hvalue =>
    constructor
    · rintro ⟨effect, heffect, hc⟩
      cases heffect
      cases hc
    · rintro ⟨hclose, -⟩
      exact absurd hclose ht
  | factor hcall houter hwaiting hf hws =>
    constructor
    · rintro ⟨effect, heffect, hc⟩
      cases heffect
      cases hc
    · rintro ⟨-, name, argument, ws', hcall', -⟩
      cases hcall.symm.trans hcall'
  | @call _ _ _ name _ sum product _ _ x _ _ ws₃ ht houter hwaiting hargument hws =>
    rw [Move.perform]
    constructor
    · rintro ⟨effect, heffect, hc⟩
      rcases hname : MathFunction.ofName? name with _ | f
      · rw [hname] at heffect
        cases heffect
      rcases hvalue : f.valueAt? x with _ | value
      · simp [hname, hvalue] at heffect
      simp only [hname, hvalue, Except.ok.injEq] at heffect
      subst heffect
      cases hc
      exact ⟨ht, name, join sum product, ws₃, rfl, hname, hargument, hvalue⟩
    · rintro ⟨-, name', argument, ws', hcall, hname, hargument', hvalue⟩
      cases hcall
      cases hargument.symm.trans hargument'
      simp [hname, hvalue]

end Beginning

/-! ## What a token tells -/

theorem Beginning.call?_eq_some {b : Beginning} {name : String} {argument : Expression}
    (h : b.call? = some (name, argument)) :
    ∃ outer waiting position sum product, argument = join sum product ∧
      b = ⟨(waiting, .call name position) :: outer, .operator sum product⟩ := by
  obtain ⟨outer, front⟩ := b
  cases front with
  | operator sum product =>
    rcases outer with _ | ⟨⟨waiting, _ | ⟨name', position⟩⟩, outer⟩
    · cases h
    · cases h
    · cases h
      exact ⟨outer, waiting, position, sum, product, rfl, rfl⟩
  | _ => cases h

/-- A call that ends with a token is the one that the token closes. -/
theorem Beginning.call?_of_call {ts before us : List Token} {t : Token} {b : Beginning} {name : String}
    {argument : Expression} (hread : read? {} ts = some b) (hts : ts ++ [t] = before ++ us)
    (hcall : us.map Token.lexeme = (Factor.call name argument).lexemes) :
    t.lexeme = .rightParen ∧ b.call? = some (name, argument) := by
  obtain ⟨t', us', closing, rfl, hname, hclose, hinside⟩ := exists_read?_call hcall
  rw [← List.append_assoc] at hts
  obtain ⟨rfl, hlast⟩ := List.append_inj' hts rfl
  obtain rfl := List.singleton_inj.1 hlast
  rw [read?_append] at hread
  obtain ⟨b₀, -, hread⟩ := Option.bind_eq_some_iff.1 hread
  obtain ⟨b₁, hpush, -⟩ := Option.bind_eq_some_iff.1 hread
  obtain ⟨waiting, hfront⟩ := front_of_push_name hname hpush
  rw [hfront, hinside] at hread
  cases hread
  exact ⟨hclose, congrArg (fun e => some (name, e)) (join_split argument)⟩

theorem occasion_called_iff {ts : List Token} {t : Token} {b : Beginning} (c : Call)
    (hread : Beginning.read? {} ts = some b) : Occasion (ts ++ [t]) (.called c) ↔
      t.lexeme = .rightParen ∧ ∃ name argument ws, b.call? = some (name, argument) ∧
        MathFunction.ofName? name = some c.f ∧ argument.eval? = some (c.argument, ws) ∧
          c.f.valueAt? c.argument = some c.value := by
  constructor
  · intro h
    cases h with
    | called hts hcall hname hargument hvalue =>
      obtain ⟨hclose, hcall⟩ := Beginning.call?_of_call hread hts hcall
      exact ⟨hclose, _, _, _, hcall, hname, hargument, hvalue⟩
  · rintro ⟨hclose, name, argument, ws, hcall, hname, hargument, hvalue⟩
    obtain ⟨outer, waiting, position, sum, product, rfl, rfl⟩ := Beginning.call?_eq_some hcall
    have hspells := Beginning.spells_read? Beginning.spells_start hread
    obtain ⟨before, rest, hts, hlexemes⟩ := exists_call_of_spells hspells hclose
    exact .called hts hlexemes hname hargument hvalue

theorem occasion_warned_iff {ts : List Token} {b : Beginning} (w : Warning)
    (hread : Beginning.read? {} ts = some b) : Occasion ts (.warned w) ↔ b.Reports w := by
  constructor
  · intro h
    cases h with
    | warned hts hbefore hoperand hleft hright hterm =>
      rw [hts, Beginning.read?_append, hbefore, Option.bind_some,
        Beginning.read?_factor _ _ _ _ hoperand] at hread
      cases hread
      exact .product hleft hright hterm
  · intro h
    cases h with
    | product hleft hright hterm =>
      obtain ⟨before, operand, hts, hoperand, hbefore⟩ := Beginning.exists_operand_of_read? hread
      exact .warned hts hbefore hoperand hleft hright hterm

theorem Effect.mem_records_iff {e : Effect} {r : Record} : r ∈ e.records ↔
    (∃ c, e.call? = some c ∧ r = .called c) ∨ ∃ w, e.warning? = some w ∧ r = .warned w := by
  obtain ⟨state, call?, warning?⟩ := e
  cases call? <;> cases warning? <;> simp [records]

theorem Effect.filterMap_warning?_records (e : Effect) :
    e.records.filterMap Record.warning? = e.warning?.toList := by
  obtain ⟨state, call?, warning?⟩ := e
  cases call? <;> cases warning? <;> rfl

/-- What there is to tell of a token is what its move tells when it is carried out. -/
theorem occasion_concat_iff {ts : List Token} {t : Token} {b b' : Beginning} {ws : List Warning}
    {move : Move} (hread : Beginning.read? {} ts = some b) (hpush : b.push t = some b')
    (hplanned : Beginning.Planned ws b t b' move) (r : Record) :
    Occasion (ts ++ [t]) r ↔ ∃ effect, move.perform = .ok effect ∧ r ∈ effect.records := by
  have hreads := Beginning.read?_concat hread hpush
  simp only [Effect.mem_records_iff]
  constructor
  · intro h
    cases r with
    | called c =>
      obtain ⟨effect, heffect, hc⟩ := (hplanned.called_iff c).2 ((occasion_called_iff c hread).1 h)
      exact ⟨effect, heffect, .inl ⟨c, hc, rfl⟩⟩
    | warned w =>
      obtain ⟨effect, heffect, hw⟩ := (hplanned.warned_iff w).2 ((occasion_warned_iff w hreads).1 h)
      exact ⟨effect, heffect, .inr ⟨w, hw, rfl⟩⟩
    | _ => cases h
  · rintro ⟨effect, heffect, ⟨c, hc, rfl⟩ | ⟨w, hw, rfl⟩⟩
    · exact (occasion_called_iff c hread).2 ((hplanned.called_iff c).1 ⟨effect, heffect, hc⟩)
    · exact (occasion_warned_iff w hreads).2 ((hplanned.warned_iff w).1 ⟨effect, heffect, hw⟩)

end DeskCalculator
