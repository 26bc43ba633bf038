import DeskCalculator.Proofs.Journal

/-!
# How a journal begins and ends

The lines of the severity `debug` frame a journal: the first names the text, the last tells its outcome.
What a run writes between them tells of tokens, calls and warnings, and has another severity
(`filter_severity_run`). So every outcome is told just once, at the end (`lines_of_start`), but one: if
already the first token cannot be read, nothing is run and the journal breaks off behind its first line
(`lines_closed`).
-/

namespace DeskCalculator

/-! ## Lines -/

/-- What is seen of a record. -/
def Record.line (r : Record) : Severity × String :=
  (r.severity, r.message)

/-- The lines of the journal. -/
def Calculation.lines (c : Calculation) : List (Severity × String) :=
  c.journal.map Record.line

/-- The line with which a text begins to be evaluated. -/
def beginning (text : String) : Severity × String :=
  (.debug, "évaluation de " ++ Text.quote text)

/-- The line that tells what has come of a text. -/
def closing (text : String) : Except Error Evaluation → Severity × String
  | .ok ev =>
    (.debug, Text.quote text ++ " = " ++ Numeral.text ev.value ++ " (" ++
      toString ev.warnings.length ++ " avertissement(s))")
  | .error e => (.debug, "échec : " ++ e.message)

theorem severity_closing (text : String) (outcome : Except Error Evaluation) :
    (closing text outcome).1 = .debug := by
  cases outcome <;> rfl

/-! ## What a run writes -/

theorem Effect.filter_severity_records (e : Effect) :
    e.records.filter (·.severity = .debug) = [] := by
  obtain ⟨state, call?, warning?⟩ := e
  cases call? <;> cases warning? <;> rfl

namespace Parser

theorem Reaches.filter_severity {s s' : State} {p p' : Parser} {ts : List Token}
    {journal : List Record} (h : Reaches s p ts s' p' journal) :
    journal.filter (·.severity = .debug) = [] := by
  induction h with
  | refl s p => rfl
  | head hcurrent hstep hrest ih =>
    obtain ⟨t, move, current, effect, -, -, -, -, -, -, rfl⟩ := step_eq_continued hstep
    rw [List.filter_append, ih, List.append_nil]
    exact effect.filter_severity_records

theorem filter_severity_run (p : Parser) : p.run.journal.filter (·.severity = .debug) = [] := by
  obtain ⟨ts, s, q, journal, b, ws, run, hreaches, -, -, -, -, hjudged, hrun⟩ := p.exists_judged_run
  have hlast : run.journal.filter (·.severity = .debug) = [] := by cases hjudged <;> rfl
  rw [hrun, List.filter_append, hreaches.filter_severity, hlast]
  rfl

end Parser

/-! ## What the journal of a text begins and ends with -/

/-- Once a parser could be made, the outcome is told at the end. -/
theorem lines_of_start {text : String} {p : Parser} (h : Parser.start text = .ok p) :
    (calculate text).lines =
      beginning text :: p.run.journal.map Record.line ++ [closing text (evaluate text)] := by
  rw [evaluate, calculate, h, Calculation.lines]
  simp only
  cases p.run.outcome <;> simp [Record.line, Record.severity, Record.message, beginning, closing]

/-- The journal of a text begins with the text. If its first token can be read, or it is empty, the last
line tells the outcome, and no other line but the first has its severity: so every error, wherever it
is found, and every value is told just once. If the first token cannot be read there is only the first
line, and the error is not told. -/
theorem lines_closed (text : String) :
    (calculate text).lines.head? = some (beginning text) ∧
      match (TokenStream.ofString text).reading 0 with
      | .ok _ =>
        (calculate text).lines.getLast? = some (closing text (evaluate text)) ∧
          (calculate text).lines.filter (·.1 = .debug) =
            [beginning text, closing text (evaluate text)]
      | .error e =>
        evaluate text = .error (.lexical e) ∧ (calculate text).lines = [beginning text] := by
  rcases hstart : Parser.start text with e | p
  · have hjournal : (calculate text).lines = [beginning text] := by
      rw [calculate, hstart]
      rfl
    rw [Parser.start_eq_error.1 hstart, hjournal]
    exact ⟨rfl, evaluate_of_start_error hstart, rfl⟩
  have hlines := lines_of_start hstart
  rcases hreading : (TokenStream.ofString text).reading 0 with e | current
  · cases hstart.symm.trans (Parser.start_eq_error.2 hreading)
  rw [hlines]
  refine ⟨rfl, List.getLast?_concat, ?_⟩
  have hrun : (p.run.journal.map Record.line).filter (·.1 = .debug) = [] := by
    rw [List.filter_map]
    exact congrArg _ p.filter_severity_run
  have hclosing : [closing text (evaluate text)].filter (·.1 = .debug) =
      [closing text (evaluate text)] :=
    List.filter_eq_self.2 (List.forall_mem_singleton.2 (decide_eq_true (severity_closing text _)))
  rw [List.filter_append, List.filter_cons, hrun, hclosing]
  rfl

/-- An error behind the first token is told at the end of the journal, one in the first token is not. -/
theorem lines_unreadable :
    (calculate "$").lines.getLast? ≠ some (closing "$" (evaluate "$")) ∧
      (calculate "1$").lines.getLast? = some (closing "1$" (evaluate "1$")) := by
  decide +kernel

end DeskCalculator
