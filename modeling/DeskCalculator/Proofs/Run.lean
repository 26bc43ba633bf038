import DeskCalculator.Evaluation
import DeskCalculator.Proofs.Beginning.Depth
import DeskCalculator.Proofs.Step

/-!
# Runs

An evaluation goes on while tokens are left behind, and ends with one more step. `Reaches` relates
the states and the parsers along the way; the tokens left behind are the first readings of the parser
(`Reaches.reading`) and the records of the journal tell them (`Reaches.filter_isRead`). They have been
read by a beginning whose value the state is (`Reaches.exists_read?`), and where a beginning with a
value and within the nesting limit reads the tokens, they are left behind (`reaches_of_read?`).
-/

namespace DeskCalculator

open Beginning (Waiting Front join complete)

/-- Whether a record tells of a token, or of the end, that is left behind. -/
def Record.isRead : Record → Bool
  | .read _ _ => true
  | _ => false

theorem Effect.filter_isRead_records (e : Effect) : e.records.filter Record.isRead = [] := by
  obtain ⟨state, call?, warning?⟩ := e
  cases call? <;> cases warning? <;> rfl

namespace Beginning

/-- Within the nesting limit, the tokens in the way of which it stands are those that would exceed
it. -/
theorem not_blocked_iff {b b' : Beginning} {s : State} {ws : List Warning} {t : Token}
    (h : b.eval? = some (s, ws)) (hpush : b.push t = some b') (hb : b.nesting ≤ nestingLimit) :
    ¬ s.Blocked t.kind ↔ b'.nesting ≤ nestingLimit := by
  have hstage : s.phase.stage = b.front.stage := congrArg Shape.stage (shape_eval? h)
  have hdepth := depth_eval? h
  have hlevels := b.levels_le_nesting
  have hnesting := nesting_push hpush
  rw [State.Blocked, hstage]
  cases ho : b.front.stage.opens t.kind with
  | true =>
    have hopened := levels_push_of_opens hpush ho
    simp only [true_and]
    omega
  | false =>
    have hkept := levels_push_le hpush ho
    simp only [Bool.false_eq_true, false_and, not_false_eq_true, true_iff]
    omega

end Beginning

namespace Parser

/-! ## One step that goes on -/

/-- A step goes on only with a token that is planned, before a reading, by a move that is carried
out. -/
theorem step_eq_continued {s s' : State} {p p' : Parser} {journal : List Record}
    (h : step s p = .continued s' p' journal) :
    ∃ t move current effect, p.current = .token t ∧ s.plan t = .ok move ∧
      p.reading 1 = .ok current ∧ move.perform = .ok effect ∧ s' = effect.state ∧
      p' = { p.advance current with warnings := p.warnings ++ effect.warning?.toList } ∧
      journal = t.record :: effect.records := by
  rcases hcurrent : p.current with t | position
  · rcases hplan : s.plan t with e | move
    · rw [step, hcurrent] at h
      simp [hplan] at h
    rcases hnext : p.reading 1 with e | current
    · rw [step_of_unreadable hcurrent hplan hnext] at h
      cases h
    rw [step_of_readable hcurrent hplan hnext] at h
    rcases hperform : move.perform with e | effect
    · rw [hperform] at h
      cases h
    · rw [hperform] at h
      cases h
      exact ⟨t, move, current, effect, rfl, hplan, rfl, hperform, rfl, rfl, rfl⟩
  · rw [step, hcurrent] at h
    rcases hfinish : s.finish position with e | value
    · simp [hfinish] at h
    · simp [hfinish] at h

/-- A step that goes on leaves one reading behind. -/
theorem reading_of_step {s s' : State} {p p' : Parser} {journal : List Record}
    (h : step s p = .continued s' p' journal) (i : Nat) : p'.reading i = p.reading (i + 1) := by
  obtain ⟨t, move, current, effect, -, -, hnext, -, -, rfl, -⟩ := step_eq_continued h
  have hreading := reading_advance hnext i
  cases i with
  | zero => exact hreading
  | succ i => exact hreading

/-! ## Several steps -/

/-- Steps that leave some tokens behind lead from a state and a parser to others, and write a
journal. -/
inductive Reaches : State → Parser → List Token → State → Parser → List Record → Prop
  | refl (s : State) (p : Parser) : Reaches s p [] s p []
  | head {s s' s'' : State} {p p' p'' : Parser} {t : Token} {ts : List Token}
      {journal journal' : List Record} (hcurrent : p.current = .token t)
      (hstep : step s p = .continued s' p' journal) (hrest : Reaches s' p' ts s'' p'' journal') :
      Reaches s p (t :: ts) s'' p'' (journal ++ journal')

theorem runFrom_of_ended {s : State} {p : Parser} {run : Run} (h : step s p = .ended run) :
    runFrom s p = run := by
  rw [runFrom]
  split
  · next run' hstep => cases hstep.symm.trans h; rfl
  · next s' p' journal hstep => cases hstep.symm.trans h

theorem runFrom_of_continued {s s' : State} {p p' : Parser} {journal : List Record}
    (h : step s p = .continued s' p' journal) :
    runFrom s p = { runFrom s' p' with journal := journal ++ (runFrom s' p').journal } := by
  rw [runFrom]
  split
  · next run hstep => cases hstep.symm.trans h
  · next hstep => cases hstep.symm.trans h; rfl

/-- An evaluation goes on from wherever it has come. -/
theorem Reaches.runFrom_eq {s s' : State} {p p' : Parser} {ts : List Token} {journal : List Record}
    (h : Reaches s p ts s' p' journal) :
    runFrom s p = { runFrom s' p' with journal := journal ++ (runFrom s' p').journal } := by
  induction h with
  | refl s p => rfl
  | head hcurrent hstep hrest ih => rw [runFrom_of_continued hstep, ih, List.append_assoc]

/-- Every evaluation leaves some tokens behind, and ends with a step. -/
theorem exists_reaches_ended (s : State) (p : Parser) :
    ∃ ts s' p' journal run, Reaches s p ts s' p' journal ∧ step s' p' = .ended run := by
  fun_induction runFrom s p with
  | case1 s p run h => exact ⟨[], s, p, [], run, .refl s p, h⟩
  | case2 s p s' p' journal h run ih =>
    obtain ⟨ts, s'', p'', journal', run', hrest, hended⟩ := ih
    obtain ⟨t, -, -, -, hcurrent, -⟩ := step_eq_continued h
    exact ⟨t :: ts, s'', p'', journal ++ journal', run', .head hcurrent h hrest, hended⟩

/-- The tokens left behind are the first readings, and those that follow remain. -/
theorem Reaches.reading {s s' : State} {p p' : Parser} {ts : List Token} {journal : List Record}
    (h : Reaches s p ts s' p' journal) :
    StartsWith p.reading ts ∧ ∀ i, p'.reading i = p.reading (ts.length + i) := by
  induction h with
  | refl s p => exact ⟨startsWith_nil _, fun i => by rw [List.length_nil, Nat.zero_add]⟩
  | @head s s' s'' p p' p'' t ts journal journal' hcurrent hstep hrest ih =>
    have hshift : p'.reading = fun i => p.reading (i + 1) := funext (reading_of_step hstep)
    rw [hshift] at ih
    refine ⟨startsWith_cons.2 ⟨congrArg Except.ok hcurrent, ih.1⟩, fun i => ?_⟩
    rw [ih.2 i, List.length_cons, Nat.add_right_comm]

/-- The journal tells the tokens left behind, in order. -/
theorem Reaches.filter_isRead {s s' : State} {p p' : Parser} {ts : List Token}
    {journal : List Record} (h : Reaches s p ts s' p' journal) :
    journal.filter Record.isRead = ts.map Token.record := by
  induction h with
  | refl s p => rfl
  | head hcurrent hstep hrest ih =>
    obtain ⟨t, move, current, effect, hcurrent', -, -, -, -, -, rfl⟩ := step_eq_continued hstep
    cases hcurrent.symm.trans hcurrent'
    rw [List.filter_append, ih, List.filter_cons_of_pos rfl, effect.filter_isRead_records]
    rfl

/-! ## Runs and beginnings -/

/-- The tokens left behind extend the beginning whose value the state is, its warnings are those of
the beginning, and the nesting limit is kept. -/
theorem Reaches.exists_read? {s s' : State} {p p' : Parser} {ts : List Token}
    {journal : List Record} (h : Reaches s p ts s' p' journal) {b : Beginning} {ws : List Warning}
    (hb : b.eval? = some (s, ws)) (hnesting : b.nesting ≤ nestingLimit) :
    ∃ b' ws', b.read? ts = some b' ∧ b'.eval? = some (s', ws ++ ws') ∧
      p'.warnings = p.warnings ++ ws' ∧ b'.nesting ≤ nestingLimit := by
  induction h generalizing b ws with
  | refl s p =>
    exact ⟨b, [], rfl, by rw [List.append_nil]; exact hb, (List.append_nil _).symm, hnesting⟩
  | @head s s' s'' p p' p'' t ts journal journal' hcurrent hstep hrest ih =>
    have hjudged := judged_step hb p
    rw [hstep] at hjudged
    cases hjudged with
    | @passed t' b₁ current effect hcurrent' hblocked hpush hnext hvalue =>
      cases hcurrent.symm.trans hcurrent'
      obtain ⟨b', ws', hread, hvalue', hwarnings, hnesting'⟩ :=
        ih hvalue ((Beginning.not_blocked_iff hb hpush hnesting).1 hblocked)
      refine ⟨b', effect.warning?.toList ++ ws', ?_, ?_, ?_, hnesting'⟩
      · rw [Beginning.read?_cons, hpush, Option.bind_some, hread]
      · rw [hvalue', List.append_assoc]
      · rw [hwarnings, List.append_assoc]

/-- Where a beginning reads the tokens that stand next, within the nesting limit and to a value, they
are left behind, once the token after them can be read. -/
theorem reaches_of_read? {s s' : State} {p : Parser} {ts : List Token} {b b' : Beginning}
    {ws ws' : List Warning} {current : Lookahead} (hb : b.eval? = some (s, ws))
    (hread : b.read? ts = some b') (hvalue : b'.eval? = some (s', ws'))
    (hnesting : b'.nesting ≤ nestingLimit) (hts : StartsWith p.reading ts)
    (hcurrent : p.reading ts.length = .ok current) :
    ∃ p' journal, Reaches s p ts s' p' journal := by
  induction ts generalizing s p b ws with
  | nil =>
    cases hread
    cases hb.symm.trans hvalue
    exact ⟨p, [], .refl _ p⟩
  | cons t ts ih =>
    obtain ⟨b₁, hpush, hread⟩ := Option.bind_eq_some_iff.1 hread
    obtain ⟨htoken, hts⟩ := startsWith_cons.1 hts
    have htoken : p.current = .token t := Except.ok.inj htoken
    have hnesting₁ : b₁.nesting ≤ nestingLimit :=
      Nat.le_trans (Beginning.nesting_le_of_read? hread) hnesting
    have hblocked : ¬ s.Blocked t.kind :=
      (Beginning.not_blocked_iff hb hpush
        (Nat.le_trans (Beginning.nesting_le_of_push hpush) hnesting₁)).2 hnesting₁
    obtain ⟨current₁, hnext⟩ : ∃ current₁, p.reading 1 = .ok current₁ := by
      cases ts with
      | nil => exact ⟨current, hcurrent⟩
      | cons t' ts => exact ⟨.token t', (startsWith_cons.1 hts).1⟩
    have hjudged := judged_step hb p
    generalize hstep : step s p = progress at hjudged
    cases hjudged with
    | tooNested hblocked' => rw [htoken] at hblocked'; exact absurd hblocked' hblocked
    | unexpected _ hkind =>
      rw [htoken] at hkind
      have hshape := Beginning.shape_push b t
      rw [hpush] at hshape
      exact absurd (.inl (hshape ▸ rfl)) hkind
    | finished hend => cases htoken.symm.trans hend
    | unreadable _ _ _ hnext' => cases hnext.symm.trans hnext'
    | faulty htoken' _ hpush' _ _ hnone =>
      cases htoken.symm.trans htoken'
      cases hpush.symm.trans hpush'
      rw [Beginning.eval?_read?_eq_none hnone hread] at hvalue
      cases hvalue
    | passed htoken' _ hpush' hnext' hvalue₁ =>
      cases htoken.symm.trans htoken'
      cases hpush.symm.trans hpush'
      have hreading := reading_of_step hstep
      obtain ⟨p', journal, hrest⟩ := ih hvalue₁ hread (fun i hi => (hreading i).trans (hts i hi))
        ((hreading _).trans hcurrent)
      exact ⟨p', _, .head htoken hstep hrest⟩

/-- How the evaluation of an expression ends: some tokens have been left behind within the nesting
limit, all calls among them have values, and one more step is judged where they have led. -/
theorem exists_judged_run (p : Parser) :
    ∃ ts s q journal b ws run, Reaches {} p ts s q journal ∧ Beginning.read? {} ts = some b ∧
      b.eval? = some (s, ws) ∧ b.nesting ≤ nestingLimit ∧ q.warnings = p.warnings ++ ws ∧
      Judged b s ws q (.ended run) ∧ p.run = { run with journal := journal ++ run.journal } := by
  obtain ⟨ts, s, q, journal, run, hreaches, hended⟩ := exists_reaches_ended {} p
  obtain ⟨b, ws, hread, hvalue, hwarnings, hnesting⟩ :=
    hreaches.exists_read? Beginning.eval?_start (Nat.zero_le _)
  rw [List.nil_append] at hvalue
  refine ⟨ts, s, q, journal, b, ws, run, hreaches, hread, hvalue, hnesting, hwarnings, ?_, ?_⟩
  · rw [← hended]
    exact judged_step hvalue q
  · rw [Parser.run, hreaches.runFrom_eq, runFrom_of_ended hended]

end Parser

/-! ## Texts -/

instance decidableEqExcept {ε α : Type} [DecidableEq ε] [DecidableEq α] : DecidableEq (Except ε α)
  | .error e, .error e' => decidable_of_iff (e = e') ⟨congrArg _, Except.error.inj⟩
  | .ok a, .ok a' => decidable_of_iff (a = a') ⟨congrArg _, Except.ok.inj⟩
  | .error _, .ok _ => isFalse fun h => by cases h
  | .ok _, .error _ => isFalse fun h => by cases h

theorem evaluate_of_start {text : String} {p : Parser} (h : Parser.start text = .ok p) :
    evaluate text =
      p.run.outcome.map fun value => ⟨value, p.run.parser.warnings, listing text⟩ := by
  rw [evaluate, calculate, h]
  simp only
  cases p.run.outcome <;> rfl

theorem journal_of_start {text : String} {p : Parser} {e : Error} (h : Parser.start text = .ok p)
    (he : p.run.outcome = .error e) :
    (calculate text).journal = .began text :: p.run.journal ++ [.failed e] := by
  rw [calculate, h]
  simp only [he]

theorem evaluate_of_start_error {text : String} {e : LexicalError}
    (h : Parser.start text = .error e) : evaluate text = .error (.lexical e) := by
  rw [evaluate, calculate, h]

/-- A step that ends the evaluation where it has come gives what comes of the text. -/
theorem evaluate_of_reaches {text : String} {p q : Parser} {ts : List Token} {s : State}
    {journal : List Record} {run : Run} (hstart : Parser.start text = .ok p)
    (hreaches : Parser.Reaches {} p ts s q journal) (hended : Parser.step s q = .ended run) :
    evaluate text = run.outcome.map fun value => ⟨value, run.parser.warnings, listing text⟩ := by
  rw [evaluate_of_start hstart, Parser.run, hreaches.runFrom_eq, Parser.runFrom_of_ended hended]

/-- How the evaluation of a text ends: the tokens left behind are its first readings, and the step
that ends it is judged with the readings after them. -/
theorem exists_judged_of_start {text : String} {p : Parser} (h : Parser.start text = .ok p) :
    ∃ ts s q journal b ws run, Parser.Reaches {} p ts s q journal ∧
      StartsWith (TokenStream.ofString text).reading ts ∧
      (∀ i, q.reading i = (TokenStream.ofString text).reading (ts.length + i)) ∧
      Beginning.read? {} ts = some b ∧ b.eval? = some (s, ws) ∧ b.nesting ≤ nestingLimit ∧
      q.warnings = ws ∧ Parser.Judged b s ws q (.ended run) ∧
      p.run = { run with journal := journal ++ run.journal } := by
  obtain ⟨hreading, hwarnings⟩ := Parser.reading_of_start h
  obtain ⟨ts, s, q, journal, b, ws, run, hreaches, hread, hvalue, hnesting, hws, hjudged, hrun⟩ :=
    p.exists_judged_run
  obtain ⟨hts, hrest⟩ := hreaches.reading
  rw [hreading] at hts hrest
  rw [hwarnings, List.nil_append] at hws
  exact ⟨ts, s, q, journal, b, ws, run, hreaches, hts, hrest, hread, hvalue, hnesting, hws, hjudged,
    hrun⟩

/-- Where a beginning reads the first tokens of a text, within the nesting limit and to a value, the
evaluation of the text leaves them behind, once the reading after them is no error. -/
theorem exists_reaches_of_read? {text : String} {ts : List Token} {b : Beginning} {s : State}
    {ws : List Warning} {current : Lookahead} (hread : Beginning.read? {} ts = some b)
    (hvalue : b.eval? = some (s, ws)) (hnesting : b.nesting ≤ nestingLimit)
    (hts : StartsWith (TokenStream.ofString text).reading ts)
    (hcurrent : (TokenStream.ofString text).reading ts.length = .ok current) :
    ∃ p q journal, Parser.start text = .ok p ∧ Parser.Reaches {} p ts s q journal ∧
      q.warnings = ws ∧ q.current = current ∧
      ∀ i, q.reading i = (TokenStream.ofString text).reading (ts.length + i) := by
  rcases hstart : Parser.start text with e | p
  · -- the first reading is the first of the tokens, or what follows them
    have hfirst := Parser.start_eq_error.1 hstart
    cases ts with
    | nil => cases hfirst.symm.trans hcurrent
    | cons t ts => cases hfirst.symm.trans (startsWith_cons.1 hts).1
  obtain ⟨hreading, hwarnings⟩ := Parser.reading_of_start hstart
  rw [← hreading] at hts hcurrent
  obtain ⟨q, journal, hreaches⟩ :=
    Parser.reaches_of_read? Beginning.eval?_start hread hvalue hnesting hts hcurrent
  obtain ⟨b', ws', hread', hvalue', hws, -⟩ :=
    hreaches.exists_read? Beginning.eval?_start (Nat.zero_le _)
  cases hread.symm.trans hread'
  cases hvalue.symm.trans hvalue'
  have hrest := hreaches.reading.2
  refine ⟨p, q, journal, rfl, hreaches, by rw [hws, hwarnings], ?_, fun i => ?_⟩
  · exact Except.ok.inj ((hrest 0).trans hcurrent)
  · rw [hrest i, hreading]

end DeskCalculator
