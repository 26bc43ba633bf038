import DeskCalculator.Screen
import DeskCalculator.Proofs.Events

/-!
# The enter key from frame to frame

The input line asks for the focus for one frame only: a click on a key or an evaluation makes it ask, and
the next frame grants what it asks for (`focus_frame`). Where it asks, the enter key does what the equals
key does; where it does not, the enter key does nothing (`frame_enter`). So after any run of frames the
enter key is as good as the equals key just when nothing came between (`frame_run_enter`): a frame in
which nothing was done is enough for the enter key to be lost.
-/

namespace DeskCalculator

namespace Desk

theorem focus_evaluateLine (d : Desk) : d.evaluateLine.focus = true := by
  have h := d.handled_evaluate
  generalize d.evaluateLine = d' at h
  cases h with
  | edited he => cases he
  | blank => rfl
  | refused => rfl
  | evaluated => rfl

theorem focus_press (d : Desk) (k : Key) : (d.press k).focus = true := by
  cases k with
  | clear scope => cases scope <;> rfl
  | _ => rfl

end Desk

/-- Whether a target is a key or the equals key. -/
def Target.isKey : Target → Bool
  | key _ => true
  | equals => true
  | _ => false

namespace Screen

/-! ## One frame -/

theorem focus_edited (d : Desk) (input : Input) :
    (edited d input).focus = (input.escape || d.focus) := by
  rw [edited]
  cases input.escape <;> rfl

theorem focus_entered (d : Desk) (input : Input) :
    (entered d input).focus = (input.enter && d.focus) := by
  rw [entered]
  cases input.enter && d.focus
  · rfl
  · exact Desk.focus_evaluateLine _

theorem focus_clickKeys {s : Screen} {t : Target} (h : t.isKey = true) :
    (s.clickKeys t).desk.focus = true ∧ (s.clickKeys t).clickHistory t = s.clickKeys t := by
  cases t with
  | key k => exact ⟨s.desk.focus_press k, rfl⟩
  | equals => exact ⟨s.desk.focus_evaluateLine, rfl⟩
  | _ => cases h

/-- After a frame the line asks for the focus if a key was clicked or the line was evaluated. -/
theorem focus_frame (s : Screen) {input : Input} (h : ∀ t ∈ input.click?, t.isKey = true) :
    (s.frame input).2.desk.focus =
      (input.click?.isSome || input.enter && (input.escape || s.desk.focus)) := by
  rw [frame]
  rcases hclick : input.click? with _ | t
  · exact (focus_entered _ _).trans (by rw [focus_edited]; rfl)
  · have ht := h t hclick
    have hshows : s.shows t = true := by
      cases t with
      | entry i => cases ht
      | _ => rfl
    obtain ⟨hfocus, hhistory⟩ :=
      @focus_clickKeys { s with desk := entered (edited s.desk input) input } t ht
    rw [Option.filter_some_pos hshows]
    exact (congrArg (fun s => s.desk.focus) hhistory).trans hfocus

/-- The enter key does what the equals key does if the line asks for the focus, and nothing if not. -/
theorem frame_enter (s : Screen) (line? : Option String) :
    (s.frame { line?, enter := true }).2 =
      if s.desk.focus then (s.frame { line?, click? := some .equals }).2
      else (s.frame { line? }).2 := by
  have hentered : (s.frame { line?, enter := true }).2 =
      { s with desk := entered (edited s.desk { line? }) { enter := true } } := rfl
  rw [hentered, entered, focus_edited]
  cases s.desk.focus <;> rfl

/-! ## Runs of frames -/

/-- The screen after some frames. -/
def run (inputs : List Input) : Screen :=
  inputs.foldl (fun s input => (s.frame input).2) {}

/-- Whether the line asks for the focus after some frames in which nothing but keys was clicked. It does
so at first. -/
def asksFocus (inputs : List Input) : Bool :=
  inputs.foldl
    (fun asks input => input.click?.isSome || input.enter && (input.escape || asks)) true

theorem run_concat (inputs : List Input) (input : Input) :
    run (inputs ++ [input]) = ((run inputs).frame input).2 := by
  rw [run, List.foldl_concat]
  rfl

theorem asksFocus_concat (inputs : List Input) (input : Input) : asksFocus (inputs ++ [input]) =
    (input.click?.isSome || input.enter && (input.escape || asksFocus inputs)) := by
  rw [asksFocus, List.foldl_concat]
  rfl

theorem focus_run {inputs : List Input}
    (h : ∀ input ∈ inputs, ∀ t ∈ input.click?, t.isKey = true) :
    (run inputs).desk.focus = asksFocus inputs := by
  induction inputs using List.reverseRecOn with
  | nil => rfl
  | append_singleton inputs input ih =>
    obtain ⟨hinputs, hinput⟩ := List.forall_mem_append.1 h
    rw [run_concat, asksFocus_concat, focus_frame _ (hinput input List.mem_cons_self), ih hinputs]

/-- After any frames in which nothing but keys was clicked, the enter key does what the equals key does if
the line asks for the focus, and nothing if not. -/
theorem frame_run_enter {inputs : List Input}
    (h : ∀ input ∈ inputs, ∀ t ∈ input.click?, t.isKey = true) (line? : Option String) :
    ((run inputs).frame { line?, enter := true }).2 =
      if asksFocus inputs then ((run inputs).frame { line?, click? := some .equals }).2
      else ((run inputs).frame { line? }).2 := by
  rw [frame_enter, focus_run h]

/-- A digit and the enter key, at once and with a frame between in which nothing is done. -/
theorem frame_run_enter_digit :
    ((run [{ click? := some (.key (.digit 7)) }]).frame { enter := true }).2.desk.history =
      [⟨"7", "7"⟩] ∧
    ((run [{ click? := some (.key (.digit 7)) }, {}]).frame { enter := true }).2 =
      run [{ click? := some (.key (.digit 7)) }, {}] := by
  have hkey : ∀ t ∈ some (Target.key (.digit 7)), t.isKey = true := fun t ht => by
    obtain rfl := Option.some.inj ht
    rfl
  have hidle : ∀ t ∈ (none : Option Target), t.isKey = true := fun t ht => nomatch ht
  constructor
  · rw [frame_run_enter (List.forall_mem_cons.2 ⟨hkey, List.forall_mem_nil _⟩)]
    decide +kernel
  · rw [frame_run_enter (List.forall_mem_cons.2
      ⟨hkey, List.forall_mem_cons.2 ⟨hidle, List.forall_mem_nil _⟩⟩)]
    decide +kernel

/-- Behind a frame in which nothing was done, the equals key evaluates the line and the enter key does
not. -/
theorem history_idle_enter :
    ((run [{ click? := some (.key (.digit 7)) }, {}]).frame { enter := true }).2.desk.history = [] ∧
    ((run [{ click? := some (.key (.digit 7)) }, {}]).frame
      { click? := some .equals }).2.desk.history = [⟨"7", "7"⟩] := by
  decide +kernel

end Screen

end DeskCalculator
