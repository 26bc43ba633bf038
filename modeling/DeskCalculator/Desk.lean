import DeskCalculator.Evaluation
import DeskCalculator.Keypad.Line

/-!
# The desk

What the user has in front of him: the input line, the outputs of the last evaluations, and a
history of the successful ones, most recent first. A failed evaluation leaves the last result in
place; its warnings and steps belong to another line and go.
-/

namespace DeskCalculator

/-- A successful evaluation: what was evaluated and the text of the result. -/
structure Entry where
  expression : String
  result : String
  deriving DecidableEq, Repr

/-- The greatest number of entries in the history. -/
def historyLimit : Nat :=
  20

structure Desk where
  line : String := ""
  result : String := ""
  warnings : List String := []
  error : String := ""
  /-- The listing of the tokens that led to the result. -/
  steps : String := ""
  history : List Entry := []
  /-- Whether the input line asks for the focus. -/
  focus : Bool := true
  deriving DecidableEq, Repr

namespace Desk

/-! ## Outputs -/

/-- Shows an error in place of the warnings and the steps. -/
def reportError (d : Desk) (message : String) : Desk :=
  { d with error := message, warnings := [], steps := "", focus := true }

/-- Shows a result and enters it in the history. -/
def deposit (d : Desk) (entry : Entry) (warnings : List String) (steps : String) : Desk :=
  { d with
    result := entry.result
    warnings
    error := ""
    steps
    history := (entry :: d.history).take historyLimit
    focus := true }

/-- Evaluates the input line without the blanks around it. -/
def evaluateLine (d : Desk) : Desk :=
  let expression := String.ofList (Text.trim d.line.toList)
  if expression = "" then
    d.reportError "Entrée vide"
  else
    match evaluate expression with
    | .error e => d.reportError (e.category.text ++ " : " ++ e.message)
    | .ok evaluation =>
      d.deposit ⟨expression, Numeral.resultText evaluation.value⟩
        (evaluation.warnings.map Warning.message) evaluation.listing

/-! ## The input line -/

/-- Copies the expression of an entry of the history to the input line, if there is such an entry.
-/
def reuse (d : Desk) (index : Nat) : Desk :=
  match d.history[index]? with
  | some entry => { d with line := entry.expression, focus := true }
  | none => { d with focus := true }

/-- Clears the outputs or more. -/
def clear (d : Desk) : Scope → Desk
  | .line => { d with line := "", focus := true }
  | .outputs => { d with result := "", warnings := [], error := "", steps := "", focus := true }
  | .everything => {}

/-- Presses a key. -/
def press (d : Desk) : Key → Desk
  | .clear scope => d.clear scope
  | k => { d with line := String.ofList (Line.edit k d.line.toList), focus := true }

/-! ## Events -/

/-- What the user does. -/
inductive Event
  | press (k : Key)
  /-- The input line is typed anew. -/
  | retype (line : String)
  | evaluate
  | reuse (index : Nat)
  deriving DecidableEq, Repr

/-- The desk after an event. -/
def handle (d : Desk) : Event → Desk
  | .press k => d.press k
  | .retype line => { d with line }
  | .evaluate => d.evaluateLine
  | .reuse index => d.reuse index

/-- The desk after some events. -/
def run (d : Desk) (events : List Event) : Desk :=
  events.foldl handle d

end Desk

end DeskCalculator
