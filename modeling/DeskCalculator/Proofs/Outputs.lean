import DeskCalculator.Proofs.Events

/-!
# What the outputs depend on

The outputs of a desk are its result, its warnings, its error, its steps and its history. They change only
when a line is evaluated or a key clears them, and what becomes of them then depends on what they were and
on the line without the blanks around it (`outputs_handle`). So the outputs that a run leaves are those that
its output events make of the outputs before it (`outputs_run`), however the line has been edited between
them; two runs with the same output events leave the same outputs (`run_outputs`).
-/

namespace DeskCalculator

/-- What a desk shows beside the input line. -/
structure Outputs where
  result : String
  warnings : List String
  error : String
  steps : String
  history : List Entry
  deriving DecidableEq, Repr

/-- What reaches the outputs. -/
inductive OutputEvent
  /-- The evaluation of a line, given without the blanks around it. -/
  | evaluated (line : String)
  /-- The key that clears the outputs but the history. -/
  | cleared
  /-- The key that clears everything. -/
  | emptied
  deriving DecidableEq, Repr

/-- A desk with these outputs. -/
def Outputs.desk (o : Outputs) (line : String) : Desk where
  line
  result := o.result
  warnings := o.warnings
  error := o.error
  steps := o.steps
  history := o.history

namespace Desk

def outputs (d : Desk) : Outputs :=
  ⟨d.result, d.warnings, d.error, d.steps, d.history⟩

/-- The output event that an event is, where it finds the input line as it stands. -/
def outputEvent? (d : Desk) : Event → Option OutputEvent
  | .press (.clear .outputs) => some .cleared
  | .press (.clear .everything) => some .emptied
  | .evaluate => some (.evaluated (trimmed d.line))
  | _ => none

/-- The output events of a run, in order. -/
def outputEvents (d : Desk) : List Event → List OutputEvent
  | [] => []
  | e :: events => (d.outputEvent? e).toList ++ (d.handle e).outputEvents events

end Desk

/-- The outputs after an output event: those of any desk that has them, after the event. -/
def Outputs.after (o : Outputs) : OutputEvent → Outputs
  | .evaluated line => (o.desk line).evaluateLine.outputs
  | .cleared => ((o.desk "").clear .outputs).outputs
  | .emptied => ((o.desk "").clear .everything).outputs

namespace Desk

variable {d d' : Desk}

/-! ## One event -/

theorem outputEvent?_eq_none {e : Event} (he : e.isOutput = false) : d.outputEvent? e = none := by
  cases e with
  | press k =>
    cases k with
    | clear scope =>
      cases scope with
      | line => rfl
      | outputs => cases he
      | everything => cases he
    | _ => rfl
  | evaluate => cases he
  | _ => rfl

theorem outputs_reportError (h : d.outputs = d'.outputs) (message : String) :
    (d.reportError message).outputs = (d'.reportError message).outputs := by
  have hresult : d.result = d'.result := congrArg Outputs.result h
  have hhistory : d.history = d'.history := congrArg Outputs.history h
  simp only [reportError, outputs, hresult, hhistory]

theorem outputs_deposit (h : d.outputs = d'.outputs) (entry : Entry) (warnings : List String)
    (steps : String) :
    (d.deposit entry warnings steps).outputs = (d'.deposit entry warnings steps).outputs := by
  have hhistory : d.history = d'.history := congrArg Outputs.history h
  simp only [deposit, outputs, hhistory]

theorem evaluateLine_of_blank (h : trimmed d.line = "") : d.evaluateLine = d.reportError "Entrée vide" :=
  if_pos h

theorem evaluateLine_of_error {e : Error} (hblank : trimmed d.line ≠ "")
    (he : evaluate (trimmed d.line) = .error e) :
    d.evaluateLine = d.reportError (e.category.text ++ " : " ++ e.message) := by
  have htrimmed : String.ofList (Text.trim d.line.toList) = trimmed d.line := rfl
  rw [evaluateLine, htrimmed, if_neg hblank, he]

theorem evaluateLine_of_ok {ev : Evaluation} (hev : evaluate (trimmed d.line) = .ok ev) :
    d.evaluateLine = d.deposit ⟨trimmed d.line, Numeral.resultText ev.value⟩
      (ev.warnings.map Warning.message) ev.listing := by
  have htrimmed : String.ofList (Text.trim d.line.toList) = trimmed d.line := rfl
  have hblank : trimmed d.line ≠ "" := by
    intro hblank
    rw [hblank, evaluate_empty] at hev
    cases hev
  rw [evaluateLine, htrimmed, if_neg hblank, hev]

/-- What an evaluation makes of the outputs depends on them and on the trimmed line alone. -/
theorem outputs_evaluateLine (h : d.outputs = d'.outputs) (hline : trimmed d.line = trimmed d'.line) :
    d.evaluateLine.outputs = d'.evaluateLine.outputs := by
  by_cases hblank : trimmed d.line = ""
  · rw [evaluateLine_of_blank hblank, evaluateLine_of_blank (hline ▸ hblank)]
    exact outputs_reportError h _
  rcases hev : evaluate (trimmed d.line) with e | ev
  · rw [evaluateLine_of_error hblank hev, evaluateLine_of_error (hline ▸ hblank) (hline ▸ hev)]
    exact outputs_reportError h _
  · rw [evaluateLine_of_ok hev, evaluateLine_of_ok (hline ▸ hev), hline]
    exact outputs_deposit h _ _ _

/-- An event that is no output event leaves the outputs; else they are what that makes of them. -/
theorem outputs_handle (d : Desk) (e : Event) :
    (d.handle e).outputs = (d.outputEvent? e).elim d.outputs d.outputs.after := by
  by_cases hevaluate : e = .evaluate
  · subst hevaluate
    exact outputs_evaluateLine rfl (trimmed_trimmed d.line).symm
  generalize hd' : d.handle e = d'
  cases hd' ▸ d.handled e with
  | edited he line focus =>
    rw [outputEvent?_eq_none he]
    rfl
  | cleared => rfl
  | emptied => rfl
  | _ => exact absurd rfl hevaluate

/-! ## Runs -/

/-- The outputs that a run leaves are those that its output events make of the outputs before it. -/
theorem outputs_run (d : Desk) (events : List Event) :
    (d.run events).outputs = (d.outputEvents events).foldl Outputs.after d.outputs := by
  induction events generalizing d with
  | nil => rfl
  | cons e events ih =>
    rw [run_cons, ih, outputs_handle, outputEvents, List.foldl_append]
    cases d.outputEvent? e <;> rfl

/-- An evaluation that fails leaves the line, the result and the history. -/
theorem handle_evaluate_of_error {e : Error} (h : evaluate (trimmed d.line) = .error e) :
    (d.handle .evaluate).line = d.line ∧ (d.handle .evaluate).result = d.result ∧
      (d.handle .evaluate).history = d.history := by
  generalize hd' : d.handle .evaluate = d'
  cases hd' ▸ d.handled .evaluate with
  | edited he => cases he
  | blank => exact ⟨rfl, rfl, rfl⟩
  | refused => exact ⟨rfl, rfl, rfl⟩
  | evaluated hev => cases h.symm.trans hev

/-- The outputs after a run from the start depend on its output events alone: on the evaluations, each with
its line without the blanks around it, and on the keys that clear outputs, in their order. An evaluation
that fails, because the line is blank or cannot be evaluated, leaves the line, the result and the history.
And after everything was cleared, a run goes on as from the start. -/
theorem run_outputs (events : List Event) :
    (∀ events', outputEvents {} events = outputEvents {} events' →
      (run {} events).outputs = (run {} events').outputs) ∧
    ((trimmed (run {} events).line = "" ∨ ∃ e, evaluate (trimmed (run {} events).line) = .error e) →
      (run {} (events ++ [.evaluate])).line = (run {} events).line ∧
      (run {} (events ++ [.evaluate])).result = (run {} events).result ∧
      (run {} (events ++ [.evaluate])).history = (run {} events).history) ∧
    ∀ events', run {} (events ++ .press (.clear .everything) :: events') = run {} events' := by
  refine ⟨fun events' h => ?_, fun h => ?_, fun events' => ?_⟩
  · rw [outputs_run, outputs_run, h]
  · obtain ⟨e, he⟩ : ∃ e, evaluate (trimmed (run {} events).line) = .error e := by
      rcases h with hblank | he
      · exact ⟨_, by rw [hblank, evaluate_empty]⟩
      · exact he
    rw [run_append, run_cons, run_nil]
    exact handle_evaluate_of_error he
  · rw [run_append, run_cons]
    rfl

/-- A digit that is evaluated, and the same line typed and spoilt and typed again with blanks around it. -/
example : outputEvents {} [.press (.digit 7), .evaluate] = outputEvents {}
    [.retype "7+", .press .delete, .press (.clear .line), .reuse 3, .retype " 7 ", .evaluate] := by
  decide +kernel

end Desk

end DeskCalculator
