import DeskCalculator.Proofs.Run
import Mathlib.Data.List.Induction

/-!
# The first error

A text is read once from left to right, with one reading ahead of the token that is judged. An error
is met at the token that stands next, at the reading after it, or at a call whose closing parenthesis
has just been left behind (`FirstError`); all that comes earlier is in order (`evaluate_firstError`).
-/

namespace DeskCalculator

open Beginning (Waiting Front join)

/-- Tokens that begin an expression and never have more levels open at once than the limit. -/
def Acceptable (ts : List Token) : Prop :=
  ∃ b, Beginning.read? {} ts = some b ∧ b.nesting ≤ nestingLimit

/-- Every call that stands whole among some tokens names a function, and its argument has a value in
the domain of that function. -/
def CallsDefined (ts : List Token) : Prop :=
  ∀ (before call after : List Token) (name : String) (argument : Expression),
    ts = before ++ call ++ after → call.map Token.lexeme = (Factor.call name argument).lexemes →
      ∃ f x ws value, MathFunction.ofName? name = some f ∧ argument.eval? = some (x, ws) ∧
        f.valueAt? x = some value

/-- How an error is the first that some readings meet, once some of their tokens have been left
behind. -/
inductive FirstError (r : Nat → Except LexicalError Lookahead) (ts : List Token) : Error → Prop
  /-- Nothing has been left behind, and the first reading is an error. -/
  | unreadableStart {e : LexicalError} (hts : ts = []) (hcurrent : r 0 = .error e) :
      FirstError r ts (.lexical e)
  /-- The token that stands next is in order, and the reading after it is an error. -/
  | unreadable {t : Token} {e : LexicalError} (hcurrent : r ts.length = .ok (.token t))
      (hacceptable : Acceptable (ts ++ [t])) (hcalls : CallsDefined ts)
      (hnext : r (ts.length + 1) = .error e) : FirstError r ts (.lexical e)
  /-- The last tokens left behind are a call, whose name is that of no function. -/
  | unknownFunction {before rest : List Token} {name : String} {position : Nat}
      {argument : Expression} {current : Lookahead}
      (hts : ts = before ++ ⟨.name name, position⟩ :: rest)
      (hcall : (⟨.name name, position⟩ :: rest).map Token.lexeme = (Factor.call name argument).lexemes)
      (hcalls : CallsDefined ts.dropLast) (hname : MathFunction.ofName? name = none)
      (hcurrent : r ts.length = .ok current) : FirstError r ts (.unknownFunction name position)
  /-- The last tokens left behind are a call, whose argument is outside the domain of its function. -/
  | outsideDomain {before rest : List Token} {name : String} {position : Nat}
      {argument : Expression} {f : MathFunction} {x : Float} {ws : List Warning}
      {current : Lookahead} (hts : ts = before ++ ⟨.name name, position⟩ :: rest)
      (hcall : (⟨.name name, position⟩ :: rest).map Token.lexeme = (Factor.call name argument).lexemes)
      (hcalls : CallsDefined ts.dropLast) (hname : MathFunction.ofName? name = some f)
      (hargument : argument.eval? = some (x, ws)) (hvalue : f.valueAt? x = none)
      (hcurrent : r ts.length = .ok current) : FirstError r ts (.outsideDomain f x)
  /-- What stands next cannot follow. -/
  | unexpected {current : Lookahead} {expected : Expected} (hcurrent : r ts.length = .ok current)
      (hacceptable : Acceptable ts) (hcalls : CallsDefined ts)
      (hkind : ¬ Viable (ts.map Token.kind ++ [current.kind])) :
      FirstError r ts (.unexpected current.kind expected current.position)
  /-- What stands next asks for one more level than the limit. -/
  | tooNested {current : Lookahead} {b : Beginning} (hcurrent : r ts.length = .ok current)
      (hacceptable : Acceptable ts) (hcalls : CallsDefined ts)
      (hread : Beginning.read? {} ts = some b) (hlevels : b.levels = nestingLimit)
      (hopens : b.front.stage.opens current.kind = true) :
      FirstError r ts (.tooNested current.position nestingLimit)

/-! ## Calls among the tokens -/

theorem Factor.exists_value_of_eval?_call {name : String} {argument : Expression}
    (h : (Factor.call name argument).eval? ≠ none) :
    ∃ f x ws value, MathFunction.ofName? name = some f ∧ argument.eval? = some (x, ws) ∧
      f.valueAt? x = some value := by
  obtain ⟨r, hr⟩ := Option.ne_none_iff_exists'.1 h
  rw [Factor.eval?] at hr
  obtain ⟨⟨x, ws⟩, hargument, hr⟩ := Option.bind_eq_some_iff.1 hr
  obtain ⟨f, hname, hr⟩ := Option.bind_eq_some_iff.1 hr
  obtain ⟨value, hvalue, -⟩ := Option.bind_eq_some_iff.1 hr
  exact ⟨f, x, ws, value, hname, hargument, hvalue⟩

/-- A name is read only where a factor comes next. -/
theorem Beginning.front_of_push_name {b b' : Beginning} {t : Token} {name : String}
    (ht : t.lexeme = .name name) (h : b.push t = some b') :
    ∃ waiting, b = ⟨b.outer, .factor waiting⟩ := by
  cases pushed_of_push h with
  | name outer waiting name' position => exact ⟨waiting, rfl⟩
  | _ => cases ht

/-- Where the tokens make a beginning with a value, the calls among them have values. -/
theorem callsDefined_of_read? {ts : List Token} {b : Beginning}
    (hread : Beginning.read? {} ts = some b) (hvalue : b.eval? ≠ none) : CallsDefined ts := by
  intro before call after name argument hts hcall
  rw [hts, Beginning.read?_append, Beginning.read?_append] at hread
  obtain ⟨b₂, hread, hafter⟩ := Option.bind_eq_some_iff.1 hread
  obtain ⟨b₁, -, hread⟩ := Option.bind_eq_some_iff.1 hread
  have hvalue₂ : b₂.eval? ≠ none := fun hnone => hvalue (Beginning.eval?_read?_eq_none hnone hafter)
  obtain ⟨t, rest, rfl, ht, -⟩ := List.map_eq_cons_iff.1 hcall
  obtain ⟨b', hpush, -⟩ := Option.bind_eq_some_iff.1 hread
  obtain ⟨waiting, hfront⟩ := Beginning.front_of_push_name ht hpush
  rw [hfront, Beginning.read?_factor _ _ _ _ hcall] at hread
  cases hread
  refine Factor.exists_value_of_eval?_call fun hnone => hvalue₂ ?_
  exact Beginning.eval?_complete_eq_none.2 (.inr (.inr hnone))

/-- The parenthesis that closes a call ends tokens that spell the call. -/
theorem exists_call_of_spells {ts : List Token} {outer : List (Waiting × Opening)}
    {waiting : Waiting} {name : String} {position : Nat} {sum : Option (Expression × SumOp)}
    {product : Term} {t : Token}
    (h : Beginning.Spells ⟨(waiting, .call name position) :: outer, .operator sum product⟩ ts)
    (ht : t.lexeme = .rightParen) :
    ∃ before rest, ts ++ [t] = before ++ ⟨.name name, position⟩ :: rest ∧
      (⟨.name name, position⟩ :: rest).map Token.lexeme =
        (Factor.call name (join sum product)).lexemes := by
  cases h with
  | @operator _ _ _ us inner houter hinner =>
    cases houter with
    | @call _ _ us vs _ _ paren houter hwaiting hparen =>
      refine ⟨us ++ vs, paren :: (inner ++ [t]), by simp, ?_⟩
      simp [Factor.lexemes, hparen, hinner, ht]

theorem CallsDefined.of_append {ts us : List Token} (h : CallsDefined (ts ++ us)) :
    CallsDefined ts := by
  intro before call after name argument hts hcall
  refine h before call (after ++ us) name argument ?_ hcall
  rw [hts, List.append_assoc _ after us]

/-- A call that is defined is not faulty. -/
theorem CallsDefined.not_faulty {ts : List Token} {t : Token} {b : Beginning} {e : Error}
    (h : CallsDefined (ts ++ [t])) (hb : b.Spells ts) (ht : t.lexeme = .rightParen) :
    ¬ b.Faulty e := by
  intro hfaulty
  cases hfaulty with
  | unknownFunction hname =>
    obtain ⟨before, rest, hts, hcall⟩ := exists_call_of_spells hb ht
    obtain ⟨f, x, ws, value, hname', -, -⟩ :=
      h before (⟨.name _, _⟩ :: rest) [] _ _ (by rw [hts, List.append_nil]) hcall
    rw [hname] at hname'
    cases hname'
  | outsideDomain hname hargument hvalue =>
    obtain ⟨before, rest, hts, hcall⟩ := exists_call_of_spells hb ht
    obtain ⟨f, x, ws, value, hname', hargument', hvalue'⟩ :=
      h before (⟨.name _, _⟩ :: rest) [] _ _ (by rw [hts, List.append_nil]) hcall
    cases hname.symm.trans hname'
    cases hargument.symm.trans hargument'
    rw [hvalue] at hvalue'
    cases hvalue'

theorem Acceptable.exists_push {ts : List Token} {t : Token} (h : Acceptable (ts ++ [t])) :
    ∃ b b', Beginning.read? {} ts = some b ∧ b.nesting ≤ nestingLimit ∧ b.push t = some b' ∧
      b'.nesting ≤ nestingLimit := by
  obtain ⟨b', hread, hnesting⟩ := h
  rw [Beginning.read?_append] at hread
  obtain ⟨b, hread, hlast⟩ := Option.bind_eq_some_iff.1 hread
  obtain ⟨b'', hpush, hlast⟩ := Option.bind_eq_some_iff.1 hlast
  cases hlast
  have hle := Beginning.nesting_le_of_push hpush
  exact ⟨b, b', hread, Nat.le_trans hle hnesting, hpush, hnesting⟩

/-- Acceptable tokens whose calls are defined make a beginning with a value. -/
theorem Acceptable.exists_eval? {ts : List Token} (hacceptable : Acceptable ts)
    (hcalls : CallsDefined ts) :
    ∃ b s ws, Beginning.read? {} ts = some b ∧ b.eval? = some (s, ws) ∧
      b.nesting ≤ nestingLimit := by
  induction ts using List.reverseRecOn with
  | nil => exact ⟨{}, {}, [], rfl, Beginning.eval?_start, Nat.zero_le _⟩
  | append_singleton ts t ih =>
    obtain ⟨b, b', hread, hnesting, hpush, hnesting'⟩ := hacceptable.exists_push
    obtain ⟨_, s, ws, hread', hvalue, -⟩ := ih ⟨b, hread, hnesting⟩ hcalls.of_append
    cases hread.symm.trans hread'
    have hblocked := (Beginning.not_blocked_iff hvalue hpush hnesting).2 hnesting'
    obtain ⟨move, -, hresult, hfaulty⟩ := Beginning.exists_plan_eq_ok hvalue hpush hblocked
    have hreads := Beginning.read?_concat hread hpush
    cases hperform : move.perform with
    | error e =>
      obtain ⟨hclose, hfaulty⟩ := hfaulty e hperform
      have hspells := Beginning.spells_read? Beginning.spells_start hread
      exact absurd hfaulty (hcalls.not_faulty hspells hclose)
    | ok effect =>
      rw [Beginning.result?, hperform] at hresult
      exact ⟨b', _, _, hreads, hresult, hnesting'⟩

/-! ## The error of a text -/

/-- An error of an evaluation is the first that its readings meet after the tokens left behind. -/
theorem Parser.Judged.firstError {b : Beginning} {s : State} {ws : List Warning} {q : Parser}
    {run : Run} {r : Nat → Except LexicalError Lookahead} {ts : List Token} {e : Error}
    (hjudged : Judged b s ws q (.ended run)) (he : run.outcome = .error e)
    (hread : Beginning.read? {} ts = some b) (hvalue : b.eval? = some (s, ws))
    (hnesting : b.nesting ≤ nestingLimit) (hts : StartsWith r ts)
    (hrest : ∀ i, q.reading i = r (ts.length + i)) :
    ∃ ts', ts.map Token.record ++ run.journal.filter Record.isRead = ts'.map Token.record ∧
      StartsWith r ts' ∧ r ts'.length = .ok run.parser.current ∧ FirstError r ts' e := by
  have hcurrent : r ts.length = .ok q.current := (hrest 0).symm
  have hnone : b.eval? ≠ none := by
    rw [hvalue]
    intro h
    cases h
  have hcalls := callsDefined_of_read? hread hnone
  cases hjudged with
  | tooNested hblocked =>
    cases he
    refine ⟨ts, List.append_nil _, hts, hcurrent, ?_⟩
    have hdepth := Beginning.depth_eval? hvalue
    have hlevels := b.levels_le_nesting
    have hstage : s.phase.stage = b.front.stage :=
      congrArg Shape.stage (Beginning.shape_eval? hvalue)
    obtain ⟨hopens, hlimit⟩ := hblocked
    exact .tooNested hcurrent ⟨b, hread, hnesting⟩ hcalls hread (by omega) (hstage ▸ hopens)
  | unexpected hblocked hkind =>
    cases he
    refine ⟨ts, List.append_nil _, hts, hcurrent, ?_⟩
    refine .unexpected hcurrent ⟨b, hread, hnesting⟩ hcalls ?_
    rwa [viable_concat_iff hread]
  | finished => cases he
  | @unreadable t b' e' htoken hblocked hpush hnext =>
    cases he
    refine ⟨ts, List.append_nil _, hts, hcurrent, ?_⟩
    have hreads := Beginning.read?_concat hread hpush
    refine .unreadable (hcurrent.trans (congrArg _ htoken)) ⟨b', hreads, ?_⟩ hcalls ?_
    · exact (Beginning.not_blocked_iff hvalue hpush hnesting).1 hblocked
    · rw [← hrest 1, hnext]
  | @faulty t b' current e' htoken hblocked hpush hclose hnext hvalue' hfaulty =>
    cases he
    rw [htoken] at hcurrent
    have hcurrent' : r (ts ++ [t]).length = .ok current := by
      rw [List.length_append, List.length_singleton, ← hrest 1, hnext]
    refine ⟨ts ++ [t], by simp [Token.record, Record.isRead], startsWith_concat.2 ⟨hts, hcurrent⟩,
      hcurrent', ?_⟩
    have hspells := Beginning.spells_read? Beginning.spells_start hread
    have hdrop : CallsDefined (ts ++ [t]).dropLast := by rwa [List.dropLast_concat]
    cases hfaulty with
    | unknownFunction hname =>
      obtain ⟨before, rest, heq, hcall⟩ := exists_call_of_spells hspells hclose
      exact .unknownFunction heq hcall hdrop hname hcurrent'
    | outsideDomain hname hargument houtside =>
      obtain ⟨before, rest, heq, hcall⟩ := exists_call_of_spells hspells hclose
      exact .outsideDomain heq hcall hdrop hname hargument houtside hcurrent'

/-- The error of a text is the first that its readings meet, after as many tokens as the journal says
have been left behind. -/
theorem exists_firstError {text : String} {e : Error} (h : evaluate text = .error e) :
    ∃ ts, (calculate text).journal.filter Record.isRead = ts.map Token.record ∧
      StartsWith (TokenStream.ofString text).reading ts ∧
      (∀ p, Parser.start text = .ok p →
        (TokenStream.ofString text).reading ts.length = .ok p.run.parser.current) ∧
      FirstError (TokenStream.ofString text).reading ts e := by
  rcases hstart : Parser.start text with e' | p
  · rw [evaluate_of_start_error hstart] at h
    cases h
    refine ⟨[], ?_, startsWith_nil _, ?_, .unreadableStart rfl (Parser.start_eq_error.1 hstart)⟩
    · rw [calculate, hstart]
      rfl
    · intro p hp
      cases hp
  obtain ⟨ts, s, q, journal, b, ws, run, hreaches, hts, hrest, hread, hvalue, hnesting, -, hjudged,
    hrun⟩ := exists_judged_of_start hstart
  have he : run.outcome = .error e := by
    rw [evaluate_of_start hstart, hrun] at h
    simp only at h
    cases houtcome : run.outcome with
    | error e' => rw [houtcome] at h; cases h; rfl
    | ok value => rw [houtcome] at h; cases h
  obtain ⟨ts', hrecords, hts', hcurrent, hfirst⟩ :=
    hjudged.firstError he hread hvalue hnesting hts hrest
  refine ⟨ts', ?_, hts', ?_, hfirst⟩
  · rw [journal_of_start hstart (by rw [hrun]; exact he), hrun, List.filter_append,
      List.filter_cons_of_neg Bool.false_ne_true, List.filter_append, hreaches.filter_isRead,
      hrecords]
    exact List.append_nil _
  · intro p' hp'
    cases hp'
    rw [hcurrent, hrun]

/-- A reading that fails after acceptable tokens is the error, even if the last of them closes a call
that has no value. -/
theorem evaluate_of_unreadable {text : String} {ts : List Token} {t : Token} {e : LexicalError}
    (hts : StartsWith (TokenStream.ofString text).reading (ts ++ [t]))
    (hacceptable : Acceptable (ts ++ [t])) (hcalls : CallsDefined ts)
    (hnext : (TokenStream.ofString text).reading (ts.length + 1) = .error e) :
    evaluate text = .error (.lexical e) := by
  obtain ⟨b, b', hread, hnesting, hpush, hnesting'⟩ := hacceptable.exists_push
  obtain ⟨_, s, ws, hread', hvalue, -⟩ := Acceptable.exists_eval? ⟨b, hread, hnesting⟩ hcalls
  cases hread.symm.trans hread'
  have hblocked := (Beginning.not_blocked_iff hvalue hpush hnesting).2 hnesting'
  obtain ⟨move, hplan, -⟩ := Beginning.exists_plan_eq_ok hvalue hpush hblocked
  obtain ⟨hts, htoken⟩ := startsWith_concat.1 hts
  obtain ⟨p, q, journal, hstart, hreaches, -, hcurrent, hrest⟩ :=
    exists_reaches_of_read? hread hvalue hnesting hts htoken
  have hstep := Parser.step_of_unreadable hcurrent hplan ((hrest 1).trans hnext)
  rw [evaluate_of_reaches hstart hreaches hstep]
  rfl

/-- The error of a text is the first that its readings meet, after as many tokens as the journal says
have been left behind; what has been left behind and what stands next are in order before it. And a
reading that fails after acceptable tokens is the error, even if the last of them closes a call that
has no value. -/
theorem evaluate_firstError (text : String) :
    (∀ e, evaluate text = .error e →
      ∃ ts, (calculate text).journal.filter Record.isRead = ts.map Token.record ∧
        StartsWith (TokenStream.ofString text).reading ts ∧
        (∀ p, Parser.start text = .ok p →
          (TokenStream.ofString text).reading ts.length = .ok p.run.parser.current) ∧
        FirstError (TokenStream.ofString text).reading ts e) ∧
      ∀ ts t e, StartsWith (TokenStream.ofString text).reading (ts ++ [t]) →
        Acceptable (ts ++ [t]) → CallsDefined ts →
        (TokenStream.ofString text).reading (ts.length + 1) = .error e →
          evaluate text = .error (.lexical e) := by
  constructor
  · intro e h
    exact exists_firstError h
  · intro ts t e hts hacceptable hcalls hnext
    exact evaluate_of_unreadable hts hacceptable hcalls hnext

example : evaluate "f(pi) @" = .error (.lexical (.unknownOperator '@' 6)) := by decide +kernel

example : evaluate "f(pi) (" = .error (.unknownFunction "f" 0) := by decide +kernel

end DeskCalculator
