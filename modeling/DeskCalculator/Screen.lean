import DeskCalculator.Desk

/-!
# The screen

The desk is shown frame by frame. A frame takes what the user did since the last one, applies it
from top to bottom while it draws, and ends with the desk and the panels that the next frame starts
from: so the part above the keys shows nothing of a click of the same frame, and the part below them
does.
-/

namespace DeskCalculator

/-- What can be clicked. -/
inductive Target
  | key (k : Key)
  | equals
  | stepsTitle
  | historyTitle
  /-- A line of the history, the most recent one first. -/
  | entry (index : Nat)
  deriving DecidableEq, Repr

/-- What the user did since the last frame. -/
structure Input where
  /-- The input line, if it was replaced. -/
  line? : Option String := none
  enter : Bool := false
  escape : Bool := false
  click? : Option Target := none
  deriving DecidableEq, Repr

/-- The texts of a frame above and below the keys, from top to bottom. -/
structure View where
  upper : List String
  lower : List String
  deriving DecidableEq, Repr

structure Screen where
  desk : Desk := {}
  stepsOpen : Bool := false
  historyOpen : Bool := true
  deriving DecidableEq, Repr

/-! ## Texts -/

namespace Screen

def title : String :=
  "Calculatrice flottante"

/-- The example shown while the input line is empty. -/
def placeholder : String :=
  "Ex: 2+3*4, sin(pi/2) + ln(exp(1)), sqrt(2)^2"

def resultLabel : String :=
  "Résultat :"

def stepsTitle : String :=
  "Démarche (jetons lus)"

def historyTitle : String :=
  "Historique"

/-- The labels of the keys, from top to bottom. -/
def keyLabels : List String :=
  Key.symbolRow.map Key.label ++ "=" :: (Key.functionRows ++ Key.digitRows).map Key.label

end Screen

/-- The target with a label. -/
def Target.ofLabel? (label : String) : Option Target :=
  if label = "=" then some .equals
  else if label = Screen.stepsTitle then some .stepsTitle
  else if label = Screen.historyTitle then some .historyTitle
  else (Key.ofLabel? label).map .key

namespace Screen

/-- The texts of a list that are not empty. -/
def shown (texts : List String) : List String :=
  texts.filter (· ≠ "")

/-- The texts above the keys: the title, the line or the placeholder, and the error. -/
def upper (line error : String) : List String :=
  [title, if line = "" then placeholder else line] ++ shown [error]

/-- The texts below the keys: the result, the warnings, and the panels that are open. -/
def lower (s : Screen) : List String :=
  [resultLabel] ++ shown [s.desk.result] ++ s.desk.warnings.map ("⚠ " ++ ·) ++
    [stepsTitle] ++ (if s.stepsOpen then shown [s.desk.steps] else []) ++
    [historyTitle] ++
    (if s.historyOpen then s.desk.history.map fun e => e.expression ++ " = " ++ e.result else [])

/-- Whether a target is on the screen: a line of the history has to exist and to be unfolded. -/
def shows (s : Screen) : Target → Bool
  | .entry index => s.historyOpen && index < s.desk.history.length
  | _ => true

/-! ## Frames -/

/-- The effect of a click on the keys and the panels. -/
def clickKeys (s : Screen) : Target → Screen
  | .key k => { s with desk := s.desk.press k }
  | .equals => { s with desk := s.desk.evaluateLine }
  | .stepsTitle => { s with stepsOpen := !s.stepsOpen }
  | .historyTitle => { s with historyOpen := !s.historyOpen }
  | .entry _ => s

/-- The effect of a click on the history, which comes last. -/
def clickHistory (s : Screen) : Target → Screen
  | .entry index => { s with desk := s.desk.reuse index }
  | _ => s

/-- The desk once the line was replaced and the escape key has cleared it. -/
def edited (d : Desk) (input : Input) : Desk :=
  let d := { d with line := input.line?.getD d.line }
  if input.escape then d.clear .line else d

/-- The desk once the input line has taken the focus it asked for, and the enter key has evaluated
it. Without that demand the line loses the focus to the enter key, which then does nothing. -/
def entered (d : Desk) (input : Input) : Desk :=
  let settled := { d with focus := false }
  if input.enter && d.focus then settled.evaluateLine else settled

/-- One frame. A click on what is not on the screen does nothing. -/
def frame (s : Screen) (input : Input) : View × Screen :=
  let click? := input.click?.filter s.shows
  let edited := edited s.desk input
  let entered := entered edited input
  let clicked := click?.elim { s with desk := entered } (clickKeys { s with desk := entered })
  (⟨upper edited.line entered.error, clicked.lower⟩, click?.elim clicked clicked.clickHistory)

end Screen

end DeskCalculator
