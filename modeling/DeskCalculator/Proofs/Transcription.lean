import DeskCalculator.Proofs.Run

/-!
# Transcriptions

Where the tokens of a text stand and how its names are spelt make no difference to what is computed:
they show in the errors alone. A transcription changes both, a name always into a name of the same
function. It carries everything that an evaluation goes through over to the transcribed text, from the
plan of a token (`plan_transcribe`) to one step (`step_transcribe`) and a whole run (`run_transcribe`),
and so it carries over the outcome of a text (`evaluate_of_transcribe`).
-/

namespace DeskCalculator

/-- A change of places and spellings that keeps what the names call. -/
structure Transcription where
  place : Nat → Nat
  spelling : String → String
  ofName?_spelling : ∀ name, MathFunction.ofName? (spelling name) = MathFunction.ofName? name

/-- Carries a result or an error over. -/
def mapBoth {ε α : Type} (e : ε → ε) (f : α → α) : Except ε α → Except ε α
  | .error x => .error (e x)
  | .ok a => .ok (f a)

variable (r : Transcription)

/-! ## Tokens and errors -/

def Lexeme.transcribe : Lexeme → Lexeme
  | .name text => .name (r.spelling text)
  | lexeme => lexeme

def Token.transcribe (t : Token) : Token :=
  ⟨t.lexeme.transcribe r, r.place t.position⟩

def LexicalError.transcribe : LexicalError → LexicalError
  | .unknownOperator c position => .unknownOperator c (r.place position)
  | .malformedNumber text position => .malformedNumber text (r.place position)

def Error.transcribe : Error → Error
  | .lexical e => .lexical (e.transcribe r)
  | .unexpected found expected position => .unexpected found expected (r.place position)
  | .tooNested position limit => .tooNested (r.place position) limit
  | .unknownFunction name position => .unknownFunction (r.spelling name) (r.place position)
  | .outsideDomain f argument => .outsideDomain f argument

def Lookahead.transcribe : Lookahead → Lookahead
  | .token t => .token (t.transcribe r)
  | .endOfInput position => .endOfInput (r.place position)

theorem Token.kind_transcribe (t : Token) : (t.transcribe r).lexeme.kind = t.lexeme.kind := by
  obtain ⟨lexeme, position⟩ := t
  cases lexeme <;> rfl

/-! ## Streams -/

namespace TokenStream

/-- The stream of the transcribed text. -/
def transcribe (s : TokenStream) : TokenStream where
  items := s.items.map (mapBoth (LexicalError.transcribe r) (Token.transcribe r))
  stop := mapBoth (LexicalError.transcribe r) r.place s.stop

theorem next_transcribe (s : TokenStream) : (s.transcribe r).next =
    (mapBoth (LexicalError.transcribe r) (Lookahead.transcribe r) s.next.1,
      s.next.2.transcribe r) := by
  obtain ⟨items, stop⟩ := s
  cases items with
  | nil => cases stop <;> rfl
  | cons item items => cases item <;> rfl

theorem tokens_transcribe (s : TokenStream) :
    (s.transcribe r).tokens = s.tokens.map (Token.transcribe r) := by
  obtain ⟨items, stop⟩ := s
  simp only [tokens, transcribe]
  induction items with
  | nil => rfl
  | cons item items ih =>
    cases item with
    | error e => rfl
    | ok t =>
      rw [List.map_cons, List.takeWhile_cons_of_pos rfl, List.takeWhile_cons_of_pos rfl]
      exact congrArg (List.cons _) ih

end TokenStream

/-! ## States and moves -/

def Opening.transcribe : Opening → Opening
  | .group => .group
  | .call name position => .call (r.spelling name) (r.place position)

def Phase.transcribe : Phase → Phase
  | .factor pending => .factor pending
  | .parenthesis pending name position =>
    .parenthesis pending (r.spelling name) (r.place position)
  | .operator sum product => .operator sum product

/-- The open parentheses of the transcribed text. -/
def transcribeOuter (outer : List (Pending × Opening)) : List (Pending × Opening) :=
  outer.map fun (pending, opening) => (pending, opening.transcribe r)

def State.transcribe (s : State) : State :=
  ⟨transcribeOuter r s.outer, s.phase.transcribe r⟩

def Move.transcribe : Move → Move
  | .enter next => .enter (next.transcribe r)
  | .factor outer pending value => .factor (transcribeOuter r outer) pending value
  | .call outer pending name position argument =>
    .call (transcribeOuter r outer) pending (r.spelling name) (r.place position) argument

def Effect.transcribe (e : Effect) : Effect :=
  { e with state := e.state.transcribe r }

namespace State

theorem outerDepth_transcribe (outer : List (Pending × Opening)) :
    outerDepth (transcribeOuter r outer) = outerDepth outer := by
  induction outer with
  | nil => rfl
  | cons level outer ih =>
    have hcons : outerDepth (transcribeOuter r outer) + level.1.negations + 1 =
        outerDepth outer + level.1.negations + 1 := by rw [ih]
    exact hcons

theorem depth_transcribe (s : State) : (s.transcribe r).depth = s.depth := by
  obtain ⟨outer, phase⟩ := s
  have houter := outerDepth_transcribe r outer
  cases phase with
  | factor pending => exact congrArg (· + pending.negations) houter
  | parenthesis pending name position => exact congrArg (· + pending.negations) houter
  | operator sum product => exact houter

theorem complete_transcribe (outer : List (Pending × Opening)) (pending : Pending) (value : Float) :
    complete (transcribeOuter r outer) pending value =
      ((complete outer pending value).1.transcribe r, (complete outer pending value).2) := by
  obtain ⟨sum, product, negations⟩ := pending
  cases product <;> rfl

theorem guardDepth_transcribe (s : State) (position : Nat) (move : Except Error Move) :
    (s.transcribe r).guardDepth (r.place position)
        (mapBoth (Error.transcribe r) (Move.transcribe r) move) =
      mapBoth (Error.transcribe r) (Move.transcribe r) (s.guardDepth position move) := by
  rw [guardDepth, guardDepth, depth_transcribe]
  split <;> rfl

/-- A token is planned as before. -/
theorem plan_transcribe (s : State) (t : Token) : (s.transcribe r).plan (t.transcribe r) =
    mapBoth (Error.transcribe r) (Move.transcribe r) (s.plan t) := by
  have hguard := guardDepth_transcribe r s t.position
  obtain ⟨outer, phase⟩ := s
  obtain ⟨lexeme, position⟩ := t
  cases phase with
  | factor pending =>
    cases lexeme with
    | leftParen => exact hguard (.ok (.enter (fresh ((pending, .group) :: outer))))
    | operator op =>
      rcases op with (_ | _) | op
      · rfl
      · exact hguard
          (.ok (.enter ⟨outer, .factor { pending with negations := pending.negations + 1 }⟩))
      · rfl
    | _ => rfl
  | parenthesis pending name start =>
    cases lexeme with
    | leftParen => exact hguard (.ok (.enter (fresh ((pending, .call name start) :: outer))))
    | _ => exact hguard (.error (.unexpected _ (.kind .leftParen) position))
  | operator sum product =>
    cases lexeme with
    | operator op => cases op <;> rfl
    | rightParen =>
      cases outer with
      | nil => rfl
      | cons level outer =>
        obtain ⟨pending, opening⟩ := level
        cases opening <;> rfl
    | _ => cases outer <;> rfl

/-- The end of the input does as before. -/
theorem finish_transcribe (s : State) (position : Nat) :
    (s.transcribe r).finish (r.place position) =
      mapBoth (Error.transcribe r) id (s.finish position) := by
  have hdepth := depth_transcribe r s
  obtain ⟨outer, phase⟩ := s
  cases phase with
  | factor pending => rfl
  | parenthesis pending name start =>
    simp only [finish, transcribe, Phase.transcribe] at hdepth ⊢
    simp only [hdepth]
    split <;> rfl
  | operator sum product => cases outer <;> rfl

end State

/-- A move is carried out as before: a call calls the same function. -/
theorem Move.perform_transcribe (move : Move) : (move.transcribe r).perform =
    mapBoth (Error.transcribe r) (Effect.transcribe r) move.perform := by
  cases move with
  | enter next => rfl
  | factor outer pending value =>
    simp only [transcribe, perform, State.complete_transcribe]
    rfl
  | call outer pending name position argument =>
    simp only [transcribe, perform, r.ofName?_spelling, State.complete_transcribe]
    cases MathFunction.ofName? name with
    | none => rfl
    | some f =>
      simp only
      cases f.valueAt? argument <;> rfl

/-! ## Runs -/

/-- The record of the same step in the journal of the transcribed text. -/
def Record.transcribe : Record → Record
  | .read kind position => .read kind (r.place position)
  | .failed e => .failed (e.transcribe r)
  | record => record

theorem Effect.records_transcribe (e : Effect) :
    (e.transcribe r).records = e.records.map (Record.transcribe r) := by
  obtain ⟨state, call?, warning?⟩ := e
  cases call? <;> cases warning? <;> rfl

namespace Parser

def transcribe (p : Parser) : Parser :=
  { p with current := p.current.transcribe r, stream := p.stream.transcribe r }

end Parser

def Run.transcribe (run : Run) : Run where
  outcome := mapBoth (Error.transcribe r) id run.outcome
  parser := run.parser.transcribe r
  journal := run.journal.map (Record.transcribe r)

def Progress.transcribe : Progress → Progress
  | .ended run => .ended (run.transcribe r)
  | .continued s p journal =>
    .continued (s.transcribe r) (p.transcribe r) (journal.map (Record.transcribe r))

namespace Parser

/-- One step does as before. -/
theorem step_transcribe (s : State) (p : Parser) :
    step (s.transcribe r) (p.transcribe r) = (step s p).transcribe r := by
  obtain ⟨current, stream, warnings⟩ := p
  cases current with
  | endOfInput position =>
    have hfinish := s.finish_transcribe r position
    simp only [step, transcribe, Lookahead.transcribe, hfinish]
    cases s.finish position <;> rfl
  | token t =>
    have hplan := s.plan_transcribe r t
    have hnext := stream.next_transcribe r
    have hkind := t.kind_transcribe r
    simp only [step, transcribe, Lookahead.transcribe, hplan]
    cases s.plan t with
    | error e => rfl
    | ok move =>
      have hperform := move.perform_transcribe r
      rcases hread : stream.next with ⟨reading, stream'⟩
      rw [hread] at hnext
      simp only [mapBoth, hnext]
      cases reading with
      | error e => rfl
      | ok current =>
        simp only [hperform, hkind]
        cases move.perform with
        | error e => rfl
        | ok effect =>
          have hrecords := effect.records_transcribe r
          simp only [mapBoth, hrecords]
          rfl

/-- A run does as before, from any state. -/
theorem runFrom_transcribe (s : State) (p : Parser) :
    runFrom (s.transcribe r) (p.transcribe r) = (runFrom s p).transcribe r := by
  fun_induction runFrom s p with
  | case1 s p run hstep =>
    have hended : step (s.transcribe r) (p.transcribe r) = .ended (run.transcribe r) := by
      rw [step_transcribe, hstep]
      rfl
    exact runFrom_of_ended hended
  | case2 s p s' p' journal hstep run ih =>
    have hcontinued : step (s.transcribe r) (p.transcribe r) =
        .continued (s'.transcribe r) (p'.transcribe r) (journal.map (Record.transcribe r)) := by
      rw [step_transcribe, hstep]
      rfl
    rw [runFrom_of_continued hcontinued, ih, Run.transcribe, Run.transcribe, List.map_append]

theorem run_transcribe (p : Parser) : (p.transcribe r).run = p.run.transcribe r :=
  runFrom_transcribe r {} p

/-! ## Texts -/

theorem start_of_transcribe {text text' : String}
    (h : TokenStream.ofString text' = (TokenStream.ofString text).transcribe r) :
    start text' = mapBoth (LexicalError.transcribe r) (transcribe r) (start text) := by
  rw [start, start, h, TokenStream.next_transcribe]
  obtain ⟨reading, stream⟩ := (TokenStream.ofString text).next
  cases reading <;> rfl

end Parser

/-- A text that is read as a transcription of another is evaluated as it is, but for the places and
spellings in an error and for the listing. -/
theorem evaluate_of_transcribe {text text' : String}
    (h : TokenStream.ofString text' = (TokenStream.ofString text).transcribe r) :
    evaluate text' = mapBoth (Error.transcribe r) (fun ev => { ev with listing := listing text' })
      (evaluate text) := by
  have hstart := Parser.start_of_transcribe r h
  rcases hparser : Parser.start text with e | p
  · rw [hparser] at hstart
    rw [evaluate_of_start_error hparser, evaluate_of_start_error hstart]
    rfl
  · rw [hparser] at hstart
    rw [evaluate_of_start hparser, evaluate_of_start hstart, Parser.run_transcribe]
    simp only [Run.transcribe, Parser.transcribe]
    cases p.run.outcome <;> rfl

end DeskCalculator
