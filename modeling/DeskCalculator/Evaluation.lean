import DeskCalculator.Evaluation.Parser

/-!
# Evaluations

A text is evaluated as one expression. The evaluation yields the value, the warnings in the order in
which they arose and the listing of the tokens, or the first error; its journal tells how it went.
-/

namespace DeskCalculator

structure Evaluation where
  value : Float
  warnings : List Warning
  listing : String
  deriving DecidableEq, Repr

/-- What comes of a text: an evaluation or an error, and the journal. -/
structure Calculation where
  outcome : Except Error Evaluation
  journal : List Record
  deriving Repr

/-- Evaluates a text and keeps the journal. An outcome is recorded at its end, unless no token could
be read at all. -/
def calculate (text : String) : Calculation :=
  match Parser.start text with
  | .error e => ⟨.error (.lexical e), [.began text]⟩
  | .ok parser =>
    let run := parser.run
    match run.outcome with
    | .error e => ⟨.error e, .began text :: run.journal ++ [.failed e]⟩
    | .ok value =>
      let warnings := run.parser.warnings
      ⟨.ok ⟨value, warnings, listing text⟩,
        .began text :: run.journal ++ [.finished text value warnings.length]⟩

/-- Evaluates a text. -/
def evaluate (text : String) : Except Error Evaluation :=
  (calculate text).outcome

end DeskCalculator
