import DeskCalculator.Evaluation.State
import DeskCalculator.Text.Quoted

/-!
# The journal

What happens during an evaluation is recorded in the order in which it happens. Each record has a
severity and a text.
-/

namespace DeskCalculator

inductive Severity
  | debug
  | trace
  | warn
  deriving DecidableEq, Repr

inductive Record
  /-- The evaluation of a text begins. -/
  | began (text : String)
  /-- A token, or the end of the input, is left behind. -/
  | read (kind : Kind) (position : Nat)
  | called (call : Call)
  | warned (w : Warning)
  /-- The evaluation of a text ends with a value and a number of warnings. -/
  | finished (text : String) (value : Float) (warnings : Nat)
  | failed (e : Error)
  deriving DecidableEq, Repr

namespace Record

def severity : Record → Severity
  | began _ => .debug
  | read _ _ => .trace
  | called _ => .trace
  | warned _ => .warn
  | finished _ _ _ => .debug
  | failed _ => .debug

def message : Record → String
  | began text => "évaluation de " ++ Text.quote text
  | read kind position => "jeton " ++ kind.text ++ " @" ++ toString position
  | called call =>
    call.f.name ++ "(" ++ Numeral.text call.argument ++ ") = " ++ Numeral.text call.value
  | warned w => w.message
  | finished text value warnings =>
    Text.quote text ++ " = " ++ Numeral.text value ++ " (" ++ toString warnings ++
      " avertissement(s))"
  | failed e => "échec : " ++ e.message

end Record

/-- The records of what a move leads to: the call, then the warning of the factor it yields. -/
def Effect.records (e : Effect) : List Record :=
  (e.call?.map .called).toList ++ (e.warning?.map .warned).toList

end DeskCalculator
