import DeskCalculator.Evaluation.Journal
import DeskCalculator.Token.Stream

/-!
# Parsers

A parser holds the token that stands next, the readings after it and the warnings so far. It
evaluates one expression up to the end of the input. A token is left behind only when the one after
it could be read; so when an evaluation fails, the parser stays where the error was met, and it can
be asked again.
-/

namespace DeskCalculator

structure Parser where
  current : Lookahead
  stream : TokenStream
  warnings : List Warning := []
  deriving Repr

/-- The outcome of an evaluation, the parser it leaves and the journal it wrote. -/
structure Run where
  outcome : Except Error Float
  parser : Parser
  journal : List Record
  deriving Repr

/-- One step of an evaluation: it ends, or goes on in another state. -/
inductive Progress
  | ended (run : Run)
  | continued (state : State) (parser : Parser) (journal : List Record)
  deriving Repr

namespace Parser

/-- The parser of a text, unless the first token cannot be read. -/
def start (text : String) : Except LexicalError Parser :=
  match (TokenStream.ofString text).next with
  | (.ok current, stream) => .ok { current, stream }
  | (.error e, _) => .error e

/-- What one token does: it is judged, the one after it is read, and the move is carried out. -/
def step (s : State) (p : Parser) : Progress :=
  match p.current with
  | .endOfInput position =>
    match s.finish position with
    | .error e => .ended ⟨.error e, p, []⟩
    | .ok value => .ended ⟨.ok value, p, [.read .endOfInput position]⟩
  | .token t =>
    match s.plan t with
    | .error e => .ended ⟨.error e, p, []⟩
    | .ok move =>
      match p.stream.next with
      | (.error e, stream) => .ended ⟨.error (.lexical e), { p with stream }, []⟩
      | (.ok current, stream) =>
        let p := { p with current, stream }
        match move.perform with
        | .error e => .ended ⟨.error e, p, [.read t.lexeme.kind t.position]⟩
        | .ok effect =>
          .continued effect.state { p with warnings := p.warnings ++ effect.warning?.toList }
            (.read t.lexeme.kind t.position :: effect.records)

/-- A bound on the tokens that can still be left behind. -/
def remaining (p : Parser) : Nat :=
  p.stream.items.length +
    match p.current with
    | .token _ => 1
    | .endOfInput _ => 0

theorem remaining_step_lt {s s' : State} {p p' : Parser} {journal : List Record}
    (h : step s p = .continued s' p' journal) : p'.remaining < p.remaining := by
  obtain ⟨current, ⟨items, stop⟩, warnings⟩ := p
  cases current with
  | endOfInput position =>
    simp only [step] at h
    split at h <;> simp at h
  | token t =>
    simp only [step] at h
    split at h
    · simp at h
    · split at h
      · simp at h
      · next current stream hnext =>
        split at h
        · simp at h
        · cases h
          cases items with
          | nil =>
            cases stop with
            | error e => simp [TokenStream.next, Except.map] at hnext
            | ok position =>
              simp only [TokenStream.next, Except.map, Prod.mk.injEq, Except.ok.injEq] at hnext
              obtain ⟨rfl, rfl⟩ := hnext
              simp [remaining]
          | cons item items =>
            cases item with
            | error e => simp [TokenStream.next, Except.map] at hnext
            | ok t =>
              simp only [TokenStream.next, Except.map, Prod.mk.injEq, Except.ok.injEq] at hnext
              obtain ⟨rfl, rfl⟩ := hnext
              simp [remaining]

/-- Goes on from a state until the evaluation ends. -/
def runFrom (s : State) (p : Parser) : Run :=
  match _h : step s p with
  | .ended run => run
  | .continued s' p' journal =>
    let run := runFrom s' p'
    { run with journal := journal ++ run.journal }
termination_by p.remaining
decreasing_by exact remaining_step_lt _h

/-- Evaluates one expression, which has to end with the input. -/
def run (p : Parser) : Run :=
  runFrom {} p

end Parser

end DeskCalculator
