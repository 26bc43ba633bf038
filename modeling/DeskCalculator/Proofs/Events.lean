import DeskCalculator.Desk
import DeskCalculator.Proofs.Run
import Mathlib.Data.List.DropRight

/-!
# What an event does

Most events change nothing but the input line and the focus; the others are the evaluations and the
two keys that clear the outputs. `Handled` says all that an event can do, in one case for each way, and
whatever goes for all desks is derived from it: once for one event (`handled`), then along every run
(`run_induction`).
-/

namespace DeskCalculator

/-! ## Trimming -/

namespace Text

theorem trimEnd_trimEnd (cs : List Char) : trimEnd (trimEnd cs) = trimEnd cs := by
  rw [trimEnd, trimEnd, List.reverse_reverse, List.dropWhile_idempotent]

/-- A text ends with the blanks that trimming takes away. -/
theorem exists_blanks (cs : List Char) :
    ∃ blanks : List Char, (∀ c ∈ blanks, isBlank c = true) ∧ cs = trimEnd cs ++ blanks :=
  ⟨cs.rtakeWhile isBlank, fun _ => List.mem_rtakeWhile_imp,
    List.rdropWhile_append_rtakeWhile.symm⟩

theorem isBlank_getLast_trimEnd {cs : List Char} (h : trimEnd cs ≠ []) :
    isBlank ((trimEnd cs).getLast h) = false :=
  Bool.eq_false_iff.2 (List.rdropWhile_last_not isBlank cs h)

/-- Trimming the end leaves a beginning that is no blank. -/
theorem dropWhile_trimEnd_dropWhile (cs : List Char) :
    (trimEnd (cs.dropWhile isBlank)).dropWhile isBlank = trimEnd (cs.dropWhile isBlank) := by
  obtain ⟨rest, hrest⟩ := trimEnd_prefix (cs.dropWhile isBlank)
  cases htrimmed : trimEnd (cs.dropWhile isBlank) with
  | nil => rfl
  | cons c kept =>
    rw [htrimmed, List.cons_append] at hrest
    have hkept := List.dropWhile_idempotent (p := isBlank) (l := cs)
    rw [← hrest] at hkept
    -- if the first character were a blank, it would be dropped from what has no blank in front
    have hc : ¬ isBlank c = true := by
      intro hc
      rw [List.dropWhile_cons_of_pos hc] at hkept
      have hlength := (List.dropWhile_sublist isBlank (l := kept ++ rest)).length_le
      rw [hkept, List.length_cons] at hlength
      omega
    rw [List.dropWhile_cons_of_neg hc]

theorem trim_trim (cs : List Char) : trim (trim cs) = trim cs := by
  rw [trim, trim, dropWhile_trimEnd_dropWhile, trimEnd_trimEnd]

end Text

/-- An input line without the blanks around it. -/
def trimmed (line : String) : String :=
  String.ofList (Text.trim line.toList)

/-- An input line without the blanks behind it. -/
def trimmedEnd (line : String) : String :=
  String.ofList (Text.trimEnd line.toList)

theorem trimmed_trimmed (line : String) : trimmed (trimmed line) = trimmed line := by
  rw [trimmed, trimmed, String.toList_ofList, Text.trim_trim]

theorem evaluate_empty : evaluate "" = .error (.unexpected .endOfInput .factor 0) := by
  decide +kernel

/-- The entry that a line would make in the history. -/
def Entry.ofLine? (line : String) : Option Entry :=
  match evaluate (trimmed line) with
  | .ok ev => some ⟨trimmed line, Numeral.resultText ev.value⟩
  | .error _ => none

namespace Desk

/-! ## One event -/

/-- Whether an event may change more than the input line and the focus. -/
def Event.isOutput : Event → Bool
  | .press (.clear .outputs) => true
  | .press (.clear .everything) => true
  | .evaluate => true
  | _ => false

/-- What an event makes of a desk. -/
inductive Handled (d : Desk) : Event → Desk → Prop
  | edited {e : Event} (he : e.isOutput = false) (line : String) (focus : Bool) :
      Handled d e { d with line, focus }
  | cleared : Handled d (.press (.clear .outputs))
      { d with result := "", warnings := [], error := "", steps := "", focus := true }
  | emptied : Handled d (.press (.clear .everything)) {}
  | blank (hline : trimmed d.line = "") : Handled d .evaluate (d.reportError "Entrée vide")
  | refused {e : Error} (hline : trimmed d.line ≠ "") (he : evaluate (trimmed d.line) = .error e) :
      Handled d .evaluate (d.reportError (e.category.text ++ " : " ++ e.message))
  | evaluated {ev : Evaluation} (hev : evaluate (trimmed d.line) = .ok ev) :
      Handled d .evaluate (d.deposit ⟨trimmed d.line, Numeral.resultText ev.value⟩
        (ev.warnings.map Warning.message) ev.listing)

theorem handled_evaluate (d : Desk) : d.Handled .evaluate d.evaluateLine := by
  have htrimmed : String.ofList (Text.trim d.line.toList) = trimmed d.line := rfl
  rw [evaluateLine, htrimmed]
  split
  · next hline => exact .blank hline
  · next hline =>
    split
    · next e he => exact .refused hline he
    · next ev hev => exact .evaluated hev

theorem handled (d : Desk) (e : Event) : d.Handled e (d.handle e) := by
  cases e with
  | press k =>
    cases k with
    | clear scope =>
      cases scope with
      | line => exact .edited rfl "" true
      | outputs => exact .cleared
      | everything => exact .emptied
    | _ => exact .edited rfl _ true
  | retype line => exact .edited rfl line d.focus
  | evaluate => exact d.handled_evaluate
  | reuse i =>
    rw [handle, reuse]
    rcases d.history[i]? with _ | entry
    · exact .edited rfl d.line true
    · exact .edited rfl entry.expression true

/-! ## Runs -/

theorem run_nil (d : Desk) : d.run [] = d :=
  rfl

theorem run_cons (d : Desk) (e : Event) (events : List Event) :
    d.run (e :: events) = (d.handle e).run events :=
  rfl

theorem run_append (d : Desk) (events events' : List Event) :
    d.run (events ++ events') = (d.run events).run events' :=
  List.foldl_append

/-- What every event preserves goes for every run. -/
theorem run_induction {P : Desk → Prop} (hstep : ∀ d e, P d → P (d.handle e)) {d : Desk} (h : P d)
    (events : List Event) : P (d.run events) := by
  induction events generalizing d with
  | nil => exact h
  | cons e events ih => exact ih (hstep d e h)

end Desk

end DeskCalculator
