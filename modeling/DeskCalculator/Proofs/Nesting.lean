import DeskCalculator.Proofs.Descent.Agreement

/-!
# The nesting limit

An evaluation is refused for its nesting exactly where it asks for one level more than the limit: at a
parenthesis or a minus sign in front of a factor, or at whatever follows the name of a call, while as
many levels are open as the limit allows. It never has more levels open, it leaves none open behind,
so a parser may be asked again, and an expression that keeps to the limit is never refused for it
(`run_nesting`).
-/

namespace DeskCalculator

/-! ## One parser, evaluated again and again -/

/-- The parser that some evaluations leave, one after the other. -/
def Parser.again (p : Parser) : Nat → Parser
  | 0 => p
  | n + 1 => (p.again n).run.parser

/-- The counter that some descents leave, one after the other: each starts with the counter that the
one before has left. -/
def Counter.again (c : Counter) : Nat → Counter
  | 0 => c
  | n + 1 => (Descent.evaluate (some nestingLimit) (c.again n)).counter

/-- However often the parser is asked, the counter is back where it was, and has kept to the limit. -/
theorem Counter.again_eq (c : Counter) (hdepth : c.depth = 0) (hdeepest : c.deepest ≤ nestingLimit)
    (n : Nat) : (c.again n).parser = c.parser.again n ∧ (c.again n).depth = 0 ∧
      (c.again n).deepest ≤ nestingLimit := by
  induction n with
  | zero => exact ⟨rfl, hdepth, hdeepest⟩
  | succ n ih =>
    obtain ⟨hparser, hdepth, hdeepest⟩ := ih
    obtain ⟨hrestored, hkept⟩ := Descent.restores_evaluate (some nestingLimit) (c.again n)
    refine ⟨?_, hrestored.trans hdepth, hkept nestingLimit rfl hdeepest⟩
    rw [Parser.again, ← hparser]
    exact (Descent.evaluate_eq_run (c.again n) hdepth).2

/-! ## Where an evaluation is refused -/

namespace Parser

/-- The levels open in a state are those that the tokens left behind have opened and not closed, and
they keep to the limit. -/
theorem Reaches.exists_levels {p q : Parser} {ts : List Token} {s : State} {journal : List Record}
    (h : Reaches {} p ts s q journal) :
    ∃ b, Beginning.read? {} ts = some b ∧ s.depth = b.levels ∧ b.levels ≤ nestingLimit := by
  obtain ⟨b, ws, hread, hvalue, -, hnesting⟩ := h.exists_read? Beginning.eval?_start (Nat.zero_le _)
  exact ⟨b, hread, Beginning.depth_eval? hvalue, Nat.le_trans b.levels_le_nesting hnesting⟩

/-- An evaluation is refused for its nesting where one level more than the limit is asked for. -/
theorem outcome_eq_tooNested_iff {p : Parser} {position limit : Nat} :
    p.run.outcome = .error (.tooNested position limit) ↔ limit = nestingLimit ∧
      ∃ ts s q journal, Reaches {} p ts s q journal ∧ s.depth = nestingLimit ∧
        s.phase.stage.opens q.current.kind = true ∧ q.current.position = position := by
  constructor
  · intro h
    obtain ⟨ts, s, q, journal, b, ws, run, hreaches, -, -, -, -, hjudged, hrun⟩ :=
      p.exists_judged_run
    obtain ⟨_, -, hdepth, hlevels⟩ := hreaches.exists_levels
    rw [hrun] at h
    cases hjudged with
    | tooNested hblocked =>
      cases h
      obtain ⟨hopens, hlimit⟩ := hblocked
      exact ⟨rfl, ts, s, q, journal, hreaches, by omega, hopens, rfl⟩
    | faulty _ _ _ _ _ _ hfaulty => cases hfaulty <;> cases h
    | _ => cases h
  · rintro ⟨rfl, ts, s, q, journal, hreaches, hdepth, hopens, rfl⟩
    have hblocked : s.Blocked q.current.kind := ⟨hopens, hdepth.ge⟩
    rw [Parser.run, hreaches.runFrom_eq, runFrom_of_ended (step_of_blocked hblocked)]

end Parser

/-- Of two lists of tokens with which readings start, the shorter begins the longer. -/
theorem StartsWith.exists_append {r : Nat → Except LexicalError Lookahead} {us ts : List Token}
    (hus : StartsWith r us) (hts : StartsWith r ts) (h : us.length ≤ ts.length) :
    ∃ vs, ts = us ++ vs := by
  induction us generalizing r ts with
  | nil => exact ⟨ts, rfl⟩
  | cons u us ih =>
    cases ts with
    | nil => cases h
    | cons t ts =>
      obtain ⟨hu, hus⟩ := startsWith_cons.1 hus
      obtain ⟨ht, hts⟩ := startsWith_cons.1 hts
      obtain ⟨vs, rfl⟩ := ih hus hts (Nat.le_of_succ_le_succ h)
      cases hu.symm.trans ht
      exact ⟨vs, rfl⟩

/-- An expression that keeps to the limit is not refused for its nesting. -/
theorem outcome_ne_tooNested {p : Parser} {ts : List Token} {tree : Expression} {n : Nat}
    (hts : StartsWith p.reading ts) (hend : p.reading ts.length = .ok (.endOfInput n))
    (hlexemes : tree.lexemes = ts.map Token.lexeme) (hdepth : tree.depth ≤ nestingLimit)
    (position limit : Nat) : p.run.outcome ≠ .error (.tooNested position limit) := by
  intro h
  obtain ⟨-, us, s, q, journal, hreaches, hlimit, hopens, -⟩ := Parser.outcome_eq_tooNested_iff.1 h
  obtain ⟨b, ws, hread, hvalue, -, -⟩ :=
    hreaches.exists_read? Beginning.eval?_start (Nat.zero_le _)
  obtain ⟨hus, hrest⟩ := hreaches.reading
  have hcurrent : p.reading us.length = .ok q.current := (hrest 0).symm
  have hstage : s.phase.stage = b.front.stage := congrArg Shape.stage (Beginning.shape_eval? hvalue)
  rw [hstage] at hopens
  have hwhole := Beginning.read?_start tree hlexemes.symm
  have hnesting := Beginning.nesting_operator tree.split.1 tree.split.2
  rw [Beginning.join_split] at hnesting
  have hle : us.length ≤ ts.length := by
    by_contra hlt
    have htoken := hus ts.length (Nat.lt_of_not_le hlt)
    cases hend.symm.trans htoken
  obtain ⟨vs, rfl⟩ := hus.exists_append hts hle
  cases vs with
  | nil =>
    rw [List.append_nil] at hwhole
    cases hread.symm.trans hwhole
    cases hopens
  | cons v vs =>
    have hv : p.reading us.length = .ok (.token v) := by
      have htoken := hts us.length (by simp)
      simpa using htoken
    have hkind : q.current = .token v := Except.ok.inj (hcurrent.symm.trans hv)
    rw [hkind] at hopens
    rw [Beginning.read?_append, hread, Option.bind_some] at hwhole
    obtain ⟨b', hpush, hwhole⟩ := Option.bind_eq_some_iff.1 hwhole
    have hopened := Beginning.levels_push_of_opens hpush hopens
    have hlevels := b'.levels_le_nesting
    have hgrows := Beginning.nesting_le_of_read? hwhole
    have hdepth' := Beginning.depth_eval? hvalue
    omega

/-- The nesting guard, for any parser and any number of evaluations of it. The descent with its counter
evaluates as the program does, never raises the counter above 256 and always brings it back to zero.
An evaluation has at most 256 levels open wherever it comes; it is refused for its nesting if and only
if it comes, before any other error, to a place that asks for one level more, and the position is that
of the token, or of the end, that stands there. An expression that never has more than 256 levels open
is not refused for it. -/
theorem run_nesting (p : Parser) :
    (∀ n, ((Counter.mk p 0 0).again n).parser = p.again n ∧ ((Counter.mk p 0 0).again n).depth = 0 ∧
      ((Counter.mk p 0 0).again n).deepest ≤ 256 ∧
      (Descent.evaluate (some 256) ((Counter.mk p 0 0).again n)).result =
        (p.again n).run.outcome) ∧
      (∀ ts s q journal, Parser.Reaches {} p ts s q journal →
        ∃ b, Beginning.read? {} ts = some b ∧ s.depth = b.levels ∧ b.levels ≤ 256) ∧
      (∀ position limit, p.run.outcome = .error (.tooNested position limit) ↔ limit = 256 ∧
        ∃ ts s q journal, Parser.Reaches {} p ts s q journal ∧ s.depth = 256 ∧
          s.phase.stage.opens q.current.kind = true ∧ q.current.position = position) ∧
      ∀ ts n, StartsWith p.reading ts → p.reading ts.length = .ok (.endOfInput n) →
        ∀ tree : Expression, tree.lexemes = ts.map Token.lexeme → tree.depth ≤ 256 →
          ∀ position limit, p.run.outcome ≠ .error (.tooNested position limit) := by
  refine ⟨fun n => ?_, fun ts s q journal h => h.exists_levels,
    fun position limit => Parser.outcome_eq_tooNested_iff,
    fun ts n hts hend tree hlexemes hdepth => outcome_ne_tooNested hts hend hlexemes hdepth⟩
  obtain ⟨hparser, hdepth, hdeepest⟩ := (Counter.mk p 0 0).again_eq rfl (Nat.zero_le _) n
  refine ⟨hparser, hdepth, hdeepest, ?_⟩
  rw [← hparser]
  exact (Descent.evaluate_eq_run _ hdepth).1

end DeskCalculator
