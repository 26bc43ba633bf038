import DeskCalculator.Proofs.Events

/-!
# The history

The log of a run is the list of all its successful evaluations since everything was last cleared, the
newest first. The history is the beginning of the log, as far as the limit allows, and each of its
entries can be evaluated again from where it stands (`run_history`).
-/

namespace DeskCalculator

/-- Whether an entry has come from a trimmed line and shows the result of its evaluation. -/
def Entry.Sound (entry : Entry) : Prop :=
  trimmed entry.expression = entry.expression ∧
    ∃ ev, evaluate entry.expression = .ok ev ∧ entry.result = Numeral.resultText ev.value

namespace Desk

variable {d : Desk}

/-! ## Sound entries -/

theorem sound_handle (h : ∀ entry ∈ d.history, entry.Sound) (e : Event) :
    ∀ entry ∈ (d.handle e).history, entry.Sound := by
  generalize hd' : d.handle e = d'
  cases hd' ▸ d.handled e with
  | edited he line focus => exact h
  | cleared => exact h
  | emptied => exact fun _ hentry => absurd hentry List.not_mem_nil
  | blank hline => exact h
  | refused hline he => exact h
  | @evaluated ev hev =>
    intro entry hentry
    rcases List.mem_cons.1 (List.mem_of_mem_take hentry) with rfl | hentry
    · exact ⟨trimmed_trimmed d.line, ev, hev, rfl⟩
    · exact h entry hentry

theorem sound_run (events : List Event) : ∀ entry ∈ (run {} events).history, entry.Sound :=
  run_induction (P := fun d => ∀ entry ∈ d.history, entry.Sound) (fun _ e h => sound_handle h e)
    (fun _ hentry => absurd hentry List.not_mem_nil) events

/-! ## The log of a run -/

/-- The log after an event. -/
def logged (d : Desk) (entries : List Entry) : Event → List Entry
  | .press (.clear .everything) => []
  | .evaluate => (Entry.ofLine? d.line).toList ++ entries
  | _ => entries

/-- The log after some events, each of which finds the input line as those before it have left it. -/
def log (d : Desk) (entries : List Entry) : List Event → List Entry
  | [] => entries
  | e :: events => (d.handle e).log (d.logged entries e) events

theorem logged_of_isOutput_eq_false (entries : List Entry) {e : Event} (he : e.isOutput = false) :
    d.logged entries e = entries := by
  cases e with
  | press k =>
    cases k with
    | clear scope =>
      cases scope with
      | everything => cases he
      | _ => rfl
    | _ => rfl
  | evaluate => cases he
  | _ => rfl

theorem history_handle {entries : List Entry} (h : d.history = entries.take historyLimit) (e : Event) :
    (d.handle e).history = (d.logged entries e).take historyLimit := by
  generalize hd' : d.handle e = d'
  cases hd' ▸ d.handled e with
  | edited he line focus => rw [logged_of_isOutput_eq_false entries he, ← h]
  | cleared => exact h
  | emptied => rfl
  | blank hline =>
    have hnone : Entry.ofLine? d.line = none := by rw [Entry.ofLine?, hline, evaluate_empty]
    rw [logged, hnone]
    exact h
  | refused hline he =>
    have hnone : Entry.ofLine? d.line = none := by rw [Entry.ofLine?, he]
    rw [logged, hnone]
    exact h
  | @evaluated ev hev =>
    have hsome : Entry.ofLine? d.line = some ⟨trimmed d.line, Numeral.resultText ev.value⟩ := by
      rw [Entry.ofLine?, hev]
    -- the entries beyond the limit are lost before or after the new one is entered
    rw [logged, hsome, deposit, h]
    simp [historyLimit, List.take_succ_cons, List.take_take]

theorem history_run {entries : List Entry} (h : d.history = entries.take historyLimit)
    (events : List Event) : (d.run events).history = (d.log entries events).take historyLimit := by
  induction events generalizing d entries with
  | nil => exact h
  | cons e events ih => exact ih (history_handle h e)

/-! ## Evaluating an entry again -/

theorem evaluateLine_of_sound {entry : Entry} (hentry : entry.Sound) (hline : d.line = entry.expression) :
    ∃ warnings steps, d.evaluateLine = d.deposit entry warnings steps := by
  obtain ⟨htrimmed, ev, hev, hresult⟩ := hentry
  obtain ⟨expression, result⟩ := entry
  subst hresult
  generalize hd' : d.evaluateLine = d'
  rw [← htrimmed, ← hline] at hev
  cases hd' ▸ d.handled_evaluate with
  | edited he => cases he
  | blank hblank =>
    rw [hblank, evaluate_empty] at hev
    cases hev
  | refused _ he => cases hev.symm.trans he
  | evaluated hev' =>
    cases hev.symm.trans hev'
    rw [hline, htrimmed]
    exact ⟨_, _, rfl⟩

/-- An entry that is copied to the input line and evaluated is deposited once more. -/
theorem run_reuse_evaluate (h : ∀ entry ∈ d.history, entry.Sound) {i : Nat} {entry : Entry}
    (hentry : d.history[i]? = some entry) : ∃ warnings steps,
      d.run [.reuse i, .evaluate] =
        deposit { d with line := entry.expression, focus := true } entry warnings steps := by
  have hreuse : d.reuse i = { d with line := entry.expression, focus := true } := by
    rw [reuse, hentry]
  obtain ⟨warnings, steps, hagain⟩ := evaluateLine_of_sound (d := d.reuse i)
    (h entry (List.mem_of_getElem? hentry)) (by rw [hreuse])
  refine ⟨warnings, steps, ?_⟩
  rw [← hreuse, ← hagain, run_cons, run_cons, run_nil, handle, handle]

theorem reuse_of_length_le {i : Nat} (h : d.history.length ≤ i) :
    d.reuse i = { d with focus := true } := by
  rw [reuse, List.getElem?_eq_none h]

/-- The history is the beginning of the log of the run, up to twenty entries. Each of its entries that is
copied to the input line and evaluated again gives no error and its result again, and is entered once
more; where there is no entry, nothing is copied. -/
theorem run_history (events : List Event) :
    (run {} events).history = (log {} [] events).take 20 ∧
      (∀ i entry, (run {} events).history[i]? = some entry →
        (run {} (events ++ [.reuse i, .evaluate])).error = "" ∧
        (run {} (events ++ [.reuse i, .evaluate])).result = entry.result ∧
        (run {} (events ++ [.reuse i, .evaluate])).history =
          (entry :: (run {} events).history).take 20) ∧
      ∀ i, (run {} events).history.length ≤ i →
        run {} (events ++ [.reuse i]) = { run {} events with focus := true } := by
  refine ⟨history_run rfl events, fun i entry hentry => ?_, fun i hi => ?_⟩
  · obtain ⟨warnings, steps, hagain⟩ := run_reuse_evaluate (sound_run events) hentry
    rw [run_append, hagain]
    exact ⟨rfl, rfl, rfl⟩
  · rw [run_append]
    exact reuse_of_length_le hi

/-- A line that cannot be evaluated leaves no entry, and the blanks around one that can are not kept. -/
example : (run {} [.retype " 1+1 ", .evaluate, .retype "1+", .evaluate]).history = [⟨"1+1", "2"⟩] := by
  decide +kernel

end Desk

end DeskCalculator
