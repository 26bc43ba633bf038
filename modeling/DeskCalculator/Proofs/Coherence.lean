import DeskCalculator.Proofs.Events

/-!
# What stands together on the desk

The outputs of a desk belong together: warnings and steps are those of the newest entry of the history,
and stand there only beside its result and without an error (`Coherent`). Every event keeps this, though
some of them clear a part of the outputs only, so it goes for every desk that is reached from a new one
(`run_coherent`).
-/

namespace DeskCalculator.Desk

/-- How the outputs and the newest entry of the history belong together. -/
structure Coherent (d : Desk) : Prop where
  /-- An error stands beside no warnings and no steps. -/
  error : d.error ≠ "" → d.warnings = [] ∧ d.steps = ""
  /-- Nothing is shown before the first entry. -/
  start : d.history = [] → d.result = "" ∧ d.warnings = [] ∧ d.steps = ""
  /-- The newest entry is what its expression evaluates to; its result is the only one shown, and only
  beside it, without an error, are there warnings and steps, which are those of that evaluation. -/
  newest : ∀ entry rest, d.history = entry :: rest → ∃ ev, evaluate entry.expression = .ok ev ∧
    entry.result = Numeral.resultText ev.value ∧ (d.result = "" ∨ d.result = entry.result) ∧
      (d.warnings = [] ∧ d.steps = "" ∨
        d.warnings = ev.warnings.map Warning.message ∧ d.steps = ev.listing ∧ d.error = "" ∧
          d.result = entry.result)

variable {d : Desk}

theorem coherent_new : Coherent {} where
  error _ := ⟨rfl, rfl⟩
  start _ := ⟨rfl, rfl, rfl⟩
  newest _ _ h := by cases h

/-- Clearing the warnings and the steps keeps a desk coherent, if the result stays or goes too. -/
theorem Coherent.clear (h : d.Coherent) {result : String} (hresult : result = "" ∨ result = d.result)
    (error : String) (focus : Bool) :
    Coherent { d with result, warnings := [], error, steps := "", focus } where
  error _ := ⟨rfl, rfl⟩
  start hempty := by
    obtain ⟨hd, -, -⟩ := h.start hempty
    rw [hd, or_self] at hresult
    exact ⟨hresult, rfl, rfl⟩
  newest entry rest hhistory := by
    obtain ⟨ev, hev, hentry, hd, -⟩ := h.newest entry rest hhistory
    refine ⟨ev, hev, hentry, ?_, .inl ⟨rfl, rfl⟩⟩
    rcases hresult with rfl | rfl
    · exact .inl rfl
    · exact hd

theorem coherent_deposit {entry : Entry} {ev : Evaluation} (hev : evaluate entry.expression = .ok ev)
    (hentry : entry.result = Numeral.resultText ev.value) :
    (d.deposit entry (ev.warnings.map Warning.message) ev.listing).Coherent where
  error h := absurd rfl h
  start h := by cases h
  newest entry' rest h := by
    cases h
    exact ⟨ev, hev, hentry, .inr rfl, .inr ⟨rfl, rfl, rfl, rfl⟩⟩

theorem Coherent.handle (h : d.Coherent) (e : Event) : (d.handle e).Coherent := by
  generalize hd' : d.handle e = d'
  cases hd' ▸ d.handled e with
  | edited he line focus => exact ⟨h.error, h.start, h.newest⟩
  | cleared => exact h.clear (.inl rfl) "" true
  | emptied => exact coherent_new
  | blank hline => exact h.clear (.inr rfl) _ true
  | refused hline he => exact h.clear (.inr rfl) _ true
  | evaluated hev => exact coherent_deposit hev rfl

/-- Whatever has been done since the start, the outputs and the newest entry belong together. -/
theorem run_coherent (events : List Event) : (run {} events).Coherent :=
  run_induction (fun _ e h => h.handle e) coherent_new events

end DeskCalculator.Desk
