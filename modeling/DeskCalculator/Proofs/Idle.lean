import DeskCalculator.Proofs.Focus

/-!
# Frames in which nothing is done

What stands below the keys is drawn after all that a frame does but the click on the history, and that
click changes the input line alone, which does not stand there: so it is drawn as the frame leaves it
(`lower_frame`). What stands above the keys may be out of date by the click of the same frame. A frame in
which nothing is done draws all of the screen as it is, and takes from it only the demand for the focus
(`frame_idle`). So one such frame is enough after any others: it shows what they have led to, and every
further one shows the same (`frame_run_idle`).
-/

namespace DeskCalculator.Screen

/-- The screen whose input line does not ask for the focus. -/
def settled (s : Screen) : Screen :=
  { s with desk := { s.desk with focus := false } }

/-- Some frames in which nothing is done. -/
def idle (n : Nat) : List Input :=
  List.replicate n ({} : Input)

/-! ## One frame -/

theorem lower_clickHistory (s : Screen) (t : Target) : (s.clickHistory t).lower = s.lower := by
  cases t with
  | entry i =>
    rw [clickHistory, Desk.reuse]
    rcases s.desk.history[i]? with _ | entry <;> rfl
  | _ => rfl

/-- What a frame draws below the keys is what the screen that it leaves has there. -/
theorem lower_frame (s : Screen) (input : Input) :
    (s.frame input).1.lower = (s.frame input).2.lower := by
  rw [frame]
  rcases input.click?.filter s.shows with _ | t
  · rfl
  · exact (lower_clickHistory _ t).symm

/-- A frame in which nothing is done. -/
theorem frame_idle (s : Screen) :
    s.frame {} = (⟨upper s.desk.line s.desk.error, s.lower⟩, s.settled) :=
  rfl

theorem mem_upper_of_ne_empty (line : String) {error : String} (h : error ≠ "") :
    error ∈ upper line error := by
  have hshown : error ∈ shown [error] := List.mem_filter.2 ⟨List.mem_cons_self, decide_eq_true h⟩
  exact List.mem_append_right _ hshown

/-! ## Runs of frames -/

theorem run_append_idle (inputs : List Input) (n : Nat) :
    run (inputs ++ idle (n + 1)) = (run inputs).settled := by
  induction n with
  | zero => rw [idle, List.replicate_one, run_concat, frame_idle]
  | succ n ih =>
    -- a screen that has settled has nothing left to take
    rw [idle, List.replicate_succ', ← List.append_assoc, run_concat, ← idle, ih, frame_idle]
    rfl

/-- All frames in which nothing is done draw the same, one after the other. -/
theorem frame_append_idle (inputs : List Input) (n : Nat) :
    ((run (inputs ++ idle n)).frame {}).1 = ((run inputs).frame {}).1 := by
  cases n with
  | zero => rw [idle, List.replicate_zero, List.append_nil]
  | succ n =>
    rw [run_append_idle, frame_idle, frame_idle]
    rfl

/-- After any frames, one in which nothing is done leaves everything but the demand for the focus as it
is, and so does every further one. They all draw the same texts: below the keys what the last of the
other frames has drawn, above them the line and the error to which these have led. So an error that a
click has caused is shown one frame later at the latest. -/
theorem frame_run_idle (inputs : List Input) (input : Input) (n : Nat) :
    let s := run (inputs ++ [input])
    let view := ((run (inputs ++ [input] ++ idle n)).frame {}).1
    run (inputs ++ [input] ++ idle (n + 1)) = s.settled ∧
      view = ⟨upper s.desk.line s.desk.error, ((run inputs).frame input).1.lower⟩ ∧
        (s.desk.error = "" ∨ s.desk.error ∈ view.upper) := by
  intro s view
  have hview : view = ⟨upper s.desk.line s.desk.error, ((run inputs).frame input).1.lower⟩ := by
    rw [lower_frame, ← run_concat]
    exact (frame_append_idle _ n).trans (congrArg Prod.fst (frame_idle s))
  refine ⟨run_append_idle _ n, hview, ?_⟩
  by_cases h : s.desk.error = ""
  · exact .inl h
  · rw [hview]
    exact .inr (mem_upper_of_ne_empty _ h)

example : (frame {} { click? := some .equals }).1.upper = [title, placeholder] ∧
    ((run [{ click? := some .equals }]).frame {}).1.upper = [title, placeholder, "Entrée vide"] := by
  decide +kernel

end DeskCalculator.Screen
