import DeskCalculator.Proofs.Nesting
import DeskCalculator.Proofs.Scanner

/-!
# Sessions

A parser can be asked again, whatever came of the evaluation before. A session is a parser that reads
its text on demand; it evaluates as the parser does whose readings have been made in advance
(`parser_run`). Each evaluation leaves a later session (`later_run`): nothing that was read is read
again, and either nothing has changed or fewer characters and tokens remain. So a text is evaluated at
most once with success, and after as many evaluations as it has characters nothing changes any more
(`session_settles`).
-/

namespace DeskCalculator

/-! ## What one reading leaves -/

namespace Scanner

theorem position_of_readNumber {run : List Char} {position : Nat} {t : Token}
    (h : (TokenStream.readNumber run position).map Lookahead.token = .ok (.token t)) :
    t.position = position := by
  rw [TokenStream.readNumber] at h
  split at h
  · cases h; rfl
  · cases h

theorem readNumber_ne_endOfInput (run : List Char) (position n : Nat) :
    (TokenStream.readNumber run position).map Lookahead.token ≠ .ok (.endOfInput n) := by
  intro h
  rw [TokenStream.readNumber] at h
  split at h <;> cases h

namespace Cut

variable {s s' : Scanner} {reading : Except LexicalError Lookahead}

theorem suffix (h : s.Cut reading s') : s'.rest <:+ s.rest := by
  cases h with
  | number hrest => exact hrest ▸ List.suffix_append _ _
  | word hrest => exact hrest ▸ List.suffix_append _ _
  | symbol hrest => exact hrest ▸ ⟨_, (List.append_cons ..).symm⟩
  | endOfInput => exact List.nil_suffix
  | unknown hrest => exact hrest ▸ List.suffix_append _ _

theorem position_add_length (h : s.Cut reading s') :
    s'.position + s'.rest.length = s.position + s.rest.length := by
  cases h with
  | number hrest => simp only [hrest, List.length_append, Nat.add_assoc]
  | word hrest => simp only [hrest, List.length_append, Nat.add_assoc]
  | symbol hrest =>
    simp only [hrest, List.length_append, List.length_cons]
    omega
  | endOfInput => rfl
  | unknown hrest => simp only [hrest, List.length_append, Nat.add_assoc]

/-- A token starts where the scanner has come, or behind, and is left behind. -/
theorem position_of_token (h : s.Cut reading s') {t : Token} (ht : reading = .ok (.token t)) :
    s.position ≤ t.position ∧ t.position < s'.position := by
  cases h with
  | number =>
    rw [position_of_readNumber ht]
    simp only [List.length_cons]
    omega
  | word =>
    cases ht
    simp only [List.length_cons]
    omega
  | symbol =>
    cases ht
    simp only
    omega
  | endOfInput => cases ht
  | unknown => cases ht

/-- The end is read where nothing is left. -/
theorem rest_of_endOfInput (h : s.Cut reading s') {n : Nat} (hn : reading = .ok (.endOfInput n)) :
    s' = ⟨n, []⟩ := by
  cases h with
  | number => exact (readNumber_ne_endOfInput _ _ _ hn).elim
  | word => cases hn
  | symbol => cases hn
  | endOfInput => cases hn; rfl
  | unknown => cases hn

end Cut

/-- A reading moves the scanner on, or leaves it as it is. -/
theorem next_eq_or_length_lt (s : Scanner) : s.next.2 = s ∨ s.next.2.rest.length < s.rest.length := by
  have hsuffix := s.cut_next.suffix
  rcases Nat.lt_or_eq_of_le hsuffix.length_le with hlt | heq
  · exact .inr hlt
  · left
    have hposition := s.cut_next.position_add_length
    have hrest := hsuffix.eq_of_length heq
    obtain ⟨position, rest⟩ := s
    generalize next ⟨position, rest⟩ = result at hposition hrest
    obtain ⟨reading, ⟨position', rest'⟩⟩ := result
    subst hrest
    simp only [Nat.add_right_cancel_iff] at hposition
    rw [hposition]

end Scanner

/-! ## Evaluating on demand -/

/-- A parser that reads its text on demand. -/
structure Session where
  current : Lookahead
  /-- What has not been read yet. -/
  scanner : Scanner
  warnings : List Warning := []
  deriving DecidableEq, Repr

namespace Session

/-- The session of a text, unless the first token cannot be read. -/
def start (text : String) : Except LexicalError Session :=
  match (Scanner.ofString text).next with
  | (.ok current, scanner) => .ok { current, scanner }
  | (.error e, _) => .error e

/-- One step of an evaluation: it ends with an outcome, or goes on in another state. -/
inductive Progress
  | ended (outcome : Except Error Float) (session : Session)
  | continued (state : State) (session : Session)

/-- What one token does: it is judged, the one after it is read, and the move is carried out. -/
def step (s : State) (p : Session) : Progress :=
  match p.current with
  | .endOfInput position => .ended (s.finish position) p
  | .token t =>
    match s.plan t with
    | .error e => .ended (.error e) p
    | .ok move =>
      match p.scanner.next with
      | (.error e, scanner) => .ended (.error (.lexical e)) { p with scanner }
      | (.ok current, scanner) =>
        match move.perform with
        | .error e => .ended (.error e) { p with current, scanner }
        | .ok effect =>
          .continued effect.state ⟨current, scanner, p.warnings ++ effect.warning?.toList⟩

/-- All that a step can do. The reading is the one behind the token that stands next. -/
inductive Stepped (s : State) (p : Session) : Progress → Prop
  | finished {n : Nat} (hcurrent : p.current = .endOfInput n) : Stepped s p (.ended (s.finish n) p)
  | refused {t : Token} {e : Error} (hcurrent : p.current = .token t) (hplan : s.plan t = .error e) :
      Stepped s p (.ended (.error e) p)
  | unreadable {t : Token} {move : Move} {e : LexicalError} (hcurrent : p.current = .token t)
      (hplan : s.plan t = .ok move) (hnext : p.scanner.next.1 = .error e) :
      Stepped s p (.ended (.error (.lexical e)) { p with scanner := p.scanner.next.2 })
  | failed {t : Token} {move : Move} {current : Lookahead} {e : Error}
      (hcurrent : p.current = .token t) (hplan : s.plan t = .ok move)
      (hnext : p.scanner.next.1 = .ok current) (hperform : move.perform = .error e) :
      Stepped s p (.ended (.error e) { p with current, scanner := p.scanner.next.2 })
  | continued {t : Token} {move : Move} {current : Lookahead} {effect : Effect}
      (hcurrent : p.current = .token t) (hplan : s.plan t = .ok move)
      (hnext : p.scanner.next.1 = .ok current) (hperform : move.perform = .ok effect) :
      Stepped s p (.continued effect.state
        ⟨current, p.scanner.next.2, p.warnings ++ effect.warning?.toList⟩)

theorem stepped_step (s : State) (p : Session) : Stepped s p (step s p) := by
  rcases hcurrent : p.current with t | n
  · rcases hplan : s.plan t with e | move
    · simp only [step, hcurrent, hplan]
      exact .refused hcurrent hplan
    rcases hread : p.scanner.next with ⟨e | current, scanner⟩
    · simp only [step, hcurrent, hplan, hread]
      have hstepped := Stepped.unreadable hcurrent hplan (congrArg Prod.fst hread)
      rwa [hread, hcurrent] at hstepped
    rcases hperform : move.perform with e | effect
    · simp only [step, hcurrent, hplan, hread, hperform]
      have hstepped := Stepped.failed hcurrent hplan (congrArg Prod.fst hread) hperform
      rwa [hread] at hstepped
    · simp only [step, hcurrent, hplan, hread, hperform]
      have hstepped := Stepped.continued hcurrent hplan (congrArg Prod.fst hread) hperform
      rwa [hread] at hstepped
  · simp only [step, hcurrent]
    exact .finished hcurrent

/-- The characters that have not been read, and the token that stands next. -/
def remaining (p : Session) : Nat :=
  p.scanner.rest.length +
    match p.current with
    | .token _ => 1
    | .endOfInput _ => 0

theorem remaining_of_token {p : Session} {t : Token} (h : p.current = .token t) :
    p.remaining = p.scanner.rest.length + 1 := by
  rw [remaining, h]

theorem remaining_of_endOfInput {p : Session} {n : Nat} (h : p.current = .endOfInput n) :
    p.remaining = p.scanner.rest.length := by
  rw [remaining, h]
  rfl

/-! ## Later sessions -/

/-- A session stands in a text of some length: nothing is lost of the text, and the token that stands
next has been read, with the whole text if it is the end. -/
structure Placed (n : Nat) (p : Session) : Prop where
  position_add : p.scanner.position + p.scanner.rest.length = n
  current_le : p.current.position ≤ p.scanner.position
  rest_eq_nil : ∀ m, p.current = .endOfInput m → m = n ∧ p.scanner.rest = []

/-- How a session comes after another: nothing goes back, warnings are only added, and less remains
unless nothing has changed. -/
structure Later (p q : Session) : Prop where
  position_le : p.scanner.position ≤ q.scanner.position
  current_le : p.current.position ≤ q.current.position
  warnings_prefix : p.warnings <+: q.warnings
  eq_or_lt : q = p ∨ q.remaining < p.remaining

theorem Later.refl (p : Session) : p.Later p :=
  ⟨Nat.le_refl _, Nat.le_refl _, List.prefix_rfl, .inl rfl⟩

theorem Later.trans {p q r : Session} (h : p.Later q) (h' : q.Later r) : p.Later r := by
  refine ⟨Nat.le_trans h.position_le h'.position_le, Nat.le_trans h.current_le h'.current_le,
    h.warnings_prefix.trans h'.warnings_prefix, ?_⟩
  rcases h.eq_or_lt with rfl | hlt
  · exact h'.eq_or_lt
  · rcases h'.eq_or_lt with rfl | hlt'
    · exact .inr hlt
    · exact .inr (Nat.lt_trans hlt' hlt)

/-- A token stays when the reading behind it is an error. -/
theorem later_of_unreadable {n : Nat} {p : Session} (hp : p.Placed n) {t : Token}
    (ht : p.current = .token t) :
    Placed n { p with scanner := p.scanner.next.2 } ∧
      p.Later { p with scanner := p.scanner.next.2 } := by
  have hposition := p.scanner.cut_next.position_add_length
  have hle := p.scanner.cut_next.suffix.length_le
  refine ⟨⟨hposition.trans hp.position_add, ?_, fun m hm => ?_⟩,
    ⟨?_, Nat.le_refl _, List.prefix_rfl, ?_⟩⟩
  · have hcurrent := hp.current_le
    simp only
    omega
  · cases ht.symm.trans hm
  · simp only
    omega
  · rcases p.scanner.next_eq_or_length_lt with heq | hlt
    · rw [heq]
      exact .inl rfl
    · exact .inr (Nat.add_lt_add_right hlt _)

/-- A token that is left behind does not remain. -/
theorem remaining_lt_of_readable {p : Session} {t : Token} (ht : p.current = .token t)
    {current : Lookahead} (hnext : p.scanner.next.1 = .ok current) (warnings : List Warning) :
    remaining ⟨current, p.scanner.next.2, warnings⟩ < p.remaining := by
  have hposition := p.scanner.cut_next.position_add_length
  rw [remaining_of_token ht]
  cases current with
  | token t' =>
    obtain ⟨hlo, hhi⟩ := p.scanner.cut_next.position_of_token hnext
    rw [remaining_of_token rfl]
    simp only
    omega
  | endOfInput m =>
    rw [p.scanner.cut_next.rest_of_endOfInput hnext, remaining_of_endOfInput rfl]
    exact Nat.succ_pos _

/-- A token is left behind when the one after it, or the end, can be read. -/
theorem later_of_readable {n : Nat} {p : Session} (hp : p.Placed n) {t : Token}
    (ht : p.current = .token t) {current : Lookahead} (hnext : p.scanner.next.1 = .ok current)
    {warnings : List Warning} (hwarnings : p.warnings <+: warnings) :
    Placed n ⟨current, p.scanner.next.2, warnings⟩ ∧
      p.Later ⟨current, p.scanner.next.2, warnings⟩ := by
  have hposition := p.scanner.cut_next.position_add_length
  have hcurrent := hp.current_le
  have hlength := hp.position_add
  have hlt := remaining_lt_of_readable ht hnext warnings
  cases current with
  | token t' =>
    obtain ⟨hlo, hhi⟩ := p.scanner.cut_next.position_of_token hnext
    exact ⟨⟨hposition.trans hlength, Nat.le_of_lt hhi, fun m hm => nomatch hm⟩,
      ⟨Nat.le_trans hlo (Nat.le_of_lt hhi), Nat.le_trans hcurrent hlo, hwarnings, .inr hlt⟩⟩
  | endOfInput m =>
    rw [p.scanner.cut_next.rest_of_endOfInput hnext] at hposition hlt ⊢
    have hm : m = n := hposition.trans hlength
    have hle : p.scanner.position ≤ m := by omega
    exact ⟨⟨hm, Nat.le_refl m, fun _ h => by cases h; exact ⟨hm, rfl⟩⟩,
      ⟨hle, Nat.le_trans hcurrent hle, hwarnings, .inr hlt⟩⟩

/-- The session that a step leaves. -/
def Progress.session : Progress → Session
  | ended _ p => p
  | continued _ p => p

/-- A step leaves a later session. -/
theorem Stepped.later {n : Nat} {s : State} {p : Session} {progress : Progress}
    (h : Stepped s p progress) (hp : p.Placed n) :
    progress.session.Placed n ∧ p.Later progress.session := by
  cases h with
  | finished hcurrent => exact ⟨hp, .refl p⟩
  | refused hcurrent hplan => exact ⟨hp, .refl p⟩
  | unreadable hcurrent hplan hnext => exact later_of_unreadable hp hcurrent
  | failed hcurrent hplan hnext hperform =>
    exact later_of_readable hp hcurrent hnext List.prefix_rfl
  | continued hcurrent hplan hnext hperform =>
    exact later_of_readable hp hcurrent hnext (List.prefix_append _ _)

/-! ## Runs -/

theorem remaining_step_lt {s s' : State} {p q : Session} (h : step s p = .continued s' q) :
    q.remaining < p.remaining := by
  have hstepped := stepped_step s p
  rw [h] at hstepped
  cases hstepped with
  | continued hcurrent hplan hnext hperform => exact remaining_lt_of_readable hcurrent hnext _

/-- Goes on from a state until the evaluation ends: its outcome, and the session that it leaves. -/
def runFrom (s : State) (p : Session) : Except Error Float × Session :=
  match _h : step s p with
  | .ended outcome q => (outcome, q)
  | .continued s' q => runFrom s' q
termination_by p.remaining
decreasing_by exact remaining_step_lt _h

theorem runFrom_of_ended {s : State} {p q : Session} {outcome : Except Error Float}
    (h : step s p = .ended outcome q) : runFrom s p = (outcome, q) := by
  rw [runFrom]
  split
  · next hstep => cases hstep.symm.trans h; rfl
  · next hstep => cases hstep.symm.trans h

/-- Evaluates one expression, which has to end with the input. -/
def run (p : Session) : Except Error Float × Session :=
  runFrom {} p

/-- The session that some evaluations leave, one after the other. -/
def again (p : Session) : Nat → Session
  | 0 => p
  | n + 1 => (p.again n).run.2

/-- An evaluation leaves a later session. -/
theorem later_runFrom {n : Nat} {p : Session} (hp : p.Placed n) (s : State) :
    (runFrom s p).2.Placed n ∧ p.Later (runFrom s p).2 := by
  fun_induction runFrom s p with
  | case1 s p outcome q hstep =>
    have hstepped := stepped_step s p
    rw [hstep] at hstepped
    exact hstepped.later hp
  | case2 s p s' q hstep ih =>
    have hstepped := stepped_step s p
    rw [hstep] at hstepped
    obtain ⟨hplaced, hlater⟩ := hstepped.later hp
    obtain ⟨hplaced', hlater'⟩ := ih hplaced
    exact ⟨hplaced', hlater.trans hlater'⟩

theorem later_run {n : Nat} {p : Session} (hp : p.Placed n) :
    p.run.2.Placed n ∧ p.Later p.run.2 :=
  later_runFrom hp {}

theorem placed_again {n : Nat} {p : Session} (hp : p.Placed n) (i : Nat) : (p.again i).Placed n := by
  induction i with
  | zero => exact hp
  | succ i ih => exact (later_run ih).1

/-! ## The parser of a session -/

/-- The parser whose readings have been made in advance. -/
def parser (p : Session) : Parser :=
  ⟨p.current, p.scanner.stream, p.warnings⟩

theorem parser_start (text : String) :
    Parser.start text = (start text).map parser := by
  have hnext := (Scanner.ofString text).next_stream
  have hstream : TokenStream.ofString text = (Scanner.ofString text).stream := rfl
  rw [Parser.start, start, hstream, hnext]
  rcases (Scanner.ofString text).next with ⟨e | current, scanner⟩ <;> rfl

theorem parser_skip (p : Session) :
    p.parser.skip = parser { p with scanner := p.scanner.next.2 } := by
  rw [Parser.skip, parser, p.scanner.next_stream]
  rfl

theorem parser_advance (p : Session) (current : Lookahead) :
    p.parser.advance current = parser { p with current, scanner := p.scanner.next.2 } := by
  rw [Parser.advance, parser, p.scanner.next_stream]
  rfl

/-- A step does the same to the parser of a session as to the session. -/
theorem Stepped.parser {s : State} {p : Session} {progress : Progress} (h : Stepped s p progress) :
    match progress with
    | .ended outcome q => ∃ journal, Parser.step s p.parser = .ended ⟨outcome, q.parser, journal⟩
    | .continued s' q => ∃ journal, Parser.step s p.parser = .continued s' q.parser journal := by
  have hreading : p.parser.reading 1 = p.scanner.next.1 := p.scanner.reading_stream 0
  cases h with
  | @finished n hcurrent =>
    simp only [Parser.step, Session.parser, hcurrent]
    rcases s.finish n with e | value
    · exact ⟨_, rfl⟩
    · exact ⟨_, rfl⟩
  | refused hcurrent hplan =>
    simp only [Parser.step, Session.parser, hcurrent, hplan]
    exact ⟨_, rfl⟩
  | unreadable hcurrent hplan hnext =>
    simp only [Parser.step_of_unreadable hcurrent hplan (hreading.trans hnext), parser_skip]
    exact ⟨_, rfl⟩
  | failed hcurrent hplan hnext hperform =>
    simp only [Parser.step_of_readable hcurrent hplan (hreading.trans hnext), parser_advance,
      hperform]
    exact ⟨_, rfl⟩
  | continued hcurrent hplan hnext hperform =>
    simp only [Parser.step_of_readable hcurrent hplan (hreading.trans hnext), parser_advance,
      hperform]
    exact ⟨_, rfl⟩

/-- A session evaluates as its parser does. -/
theorem parser_runFrom (s : State) (p : Session) :
    (Parser.runFrom s p.parser).outcome = (runFrom s p).1 ∧
      (Parser.runFrom s p.parser).parser = (runFrom s p).2.parser := by
  fun_induction runFrom s p with
  | case1 s p outcome q hstep =>
    have hstepped := stepped_step s p
    rw [hstep] at hstepped
    obtain ⟨journal, h⟩ := hstepped.parser
    rw [Parser.runFrom_of_ended h]
    exact ⟨rfl, rfl⟩
  | case2 s p s' q hstep ih =>
    have hstepped := stepped_step s p
    rw [hstep] at hstepped
    obtain ⟨journal, h⟩ := hstepped.parser
    rw [Parser.runFrom_of_continued h]
    exact ih

theorem parser_run (p : Session) :
    p.parser.run.outcome = p.run.1 ∧ p.parser.run.parser = p.run.2.parser :=
  parser_runFrom {} p

theorem parser_again (p : Session) (i : Nat) : p.parser.again i = (p.again i).parser := by
  induction i with
  | zero => rfl
  | succ i ih => rw [Parser.again, ih, (p.again i).parser_run.2, again]

/-! ## Asking again -/

/-- The session of a text stands in it, and no more remains than the text has characters: the token that
stands next has taken one at least. -/
theorem placed_start {text : String} {p : Session} (h : start text = .ok p) :
    p.Placed text.length ∧ p.remaining ≤ text.length := by
  have hcut := (Scanner.ofString text).cut_next
  have hlength : (Scanner.ofString text).position + (Scanner.ofString text).rest.length =
      text.length :=
    (Nat.zero_add _).trans String.length_toList
  rw [start] at h
  generalize (Scanner.ofString text).next = result at h hcut
  obtain ⟨e | current, scanner⟩ := result
  · cases h
  cases h
  have hposition := hcut.position_add_length.trans hlength
  cases current with
  | token t =>
    obtain ⟨-, hlt⟩ := hcut.position_of_token rfl
    simp only at hlt hposition
    refine ⟨⟨hposition, Nat.le_of_lt hlt, fun m hm => nomatch hm⟩, ?_⟩
    rw [remaining_of_token rfl]
    simp only
    omega
  | endOfInput m =>
    obtain rfl := hcut.rest_of_endOfInput rfl
    have hm : m = text.length := hposition
    refine ⟨⟨hposition, Nat.le_refl m, ?_⟩, ?_⟩
    · rintro _ ⟨⟩
      exact ⟨hm, rfl⟩
    · rw [remaining_of_endOfInput rfl]
      exact Nat.zero_le _

/-- Nothing is evaluated where the end stands next. -/
theorem run_of_endOfInput {p : Session} {n : Nat} (h : p.current = .endOfInput n) :
    p.run = (.error (.unexpected .endOfInput .factor n), p) := by
  have hstep : step {} p = .ended (State.finish {} n) p := by simp only [step, h]
  exact runFrom_of_ended hstep

/-- A step that ends with a value has come to the end. -/
theorem Stepped.current_of_ok {s : State} {p q : Session} {value : Float}
    (h : Stepped s p (.ended (.ok value) q)) : ∃ n, q.current = .endOfInput n := by
  generalize hprogress : Progress.ended (.ok value) q = progress at h
  cases h with
  | @finished n hcurrent =>
    obtain ⟨-, rfl⟩ := Progress.ended.inj hprogress
    exact ⟨n, hcurrent⟩
  | refused => cases hprogress
  | unreadable => cases hprogress
  | failed => cases hprogress
  | continued => cases hprogress

/-- An evaluation that succeeds has come to the end. -/
theorem current_of_runFrom_eq_ok {s : State} {p : Session} {value : Float}
    (h : (runFrom s p).1 = .ok value) : ∃ n, (runFrom s p).2.current = .endOfInput n := by
  fun_induction runFrom s p with
  | case1 s p outcome q hstep =>
    obtain rfl : outcome = .ok value := h
    have hstepped := stepped_step s p
    rw [hstep] at hstepped
    exact hstepped.current_of_ok
  | case2 s p s' q hstep ih => exact ih h

theorem again_succ (p : Session) (i : Nat) : p.again (i + 1) = p.run.2.again i := by
  induction i with
  | zero => rfl
  | succ i ih => rw [again, ih, again]

theorem again_of_run_eq {p : Session} (h : p.run.2 = p) (i : Nat) : p.again i = p := by
  induction i with
  | zero => rfl
  | succ i ih => rw [again_succ, h, ih]

/-- After as many evaluations as there are characters and tokens remaining, nothing changes. -/
theorem again_eq_of_remaining_le {n m : Nat} {p : Session} (hp : p.Placed n) (hm : p.remaining ≤ m) :
    p.again (m + 1) = p.again m := by
  induction m generalizing p with
  | zero =>
    obtain ⟨-, hlater⟩ := later_run hp
    rcases hlater.eq_or_lt with heq | hlt
    · exact heq
    · omega
  | succ m ih =>
    obtain ⟨hplaced, hlater⟩ := later_run hp
    rcases hlater.eq_or_lt with heq | hlt
    · rw [again_of_run_eq heq, again_of_run_eq heq]
    · rw [again_succ p (m + 1), again_succ p m]
      exact ih hplaced (by omega)

/-- What comes of it to ask again and again, when nothing changes any more. -/
theorem again_of_le {n m : Nat} {p : Session} (hp : p.Placed n) (hm : p.remaining ≤ m) {i : Nat}
    (hi : m ≤ i) : p.again i = p.again m := by
  induction i, hi using Nat.le_induction with
  | base => rfl
  | succ i hi ih => rw [again_eq_of_remaining_le hp (Nat.le_trans hm hi), ih]

/-- An evaluation that succeeds leaves the end, and nothing more is evaluated. -/
theorem run_of_run_eq_ok {n : Nat} {p : Session} (hp : p.Placed n) {value : Float}
    (h : p.run.1 = .ok value) :
    p.run.2.run = (.error (.unexpected .endOfInput .factor n), p.run.2) := by
  obtain ⟨m, hm⟩ := current_of_runFrom_eq_ok h
  obtain ⟨rfl, -⟩ := (later_run hp).1.rest_eq_nil m hm
  exact run_of_endOfInput hm

end Session

/-- One parser, asked again and again. It reads on demand, as its session does. What its tokenizer has
read, the position of the token that stands next and the warnings only grow. At most one evaluation
succeeds: every later one finds the end of the text where a factor should be, and changes nothing. And
when there have been as many evaluations as the text has characters, every further one ends with the
same error and changes nothing. -/
theorem session_settles {text : String} {p : Session} (h : Session.start text = .ok p) :
    (Parser.start text = .ok p.parser ∧ ∀ i, p.parser.again i = (p.again i).parser ∧
        (p.parser.again i).run.outcome = (p.again i).run.1) ∧
      (∀ i, (p.again i).scanner.position ≤ (p.again (i + 1)).scanner.position ∧
        (p.again i).current.position ≤ (p.again (i + 1)).current.position ∧
        (p.again i).warnings <+: (p.again (i + 1)).warnings) ∧
      (∀ i value, (p.again i).run.1 = .ok value → ∀ j, i < j →
        (p.again j).run.1 = .error (.unexpected .endOfInput .factor text.length) ∧
          p.again (j + 1) = p.again j) ∧
      ∃ e, ∀ i, text.length ≤ i → (p.again i).run.1 = .error e ∧ p.again (i + 1) = p.again i := by
  obtain ⟨hp, hremaining⟩ := Session.placed_start h
  refine ⟨⟨by rw [Session.parser_start, h]; rfl, fun i => ?_⟩, fun i => ?_, fun i value hok j hij => ?_, ?_⟩
  · rw [Session.parser_again]
    exact ⟨rfl, (p.again i).parser_run.1⟩
  · obtain ⟨-, hlater⟩ := Session.later_run (Session.placed_again hp i)
    exact ⟨hlater.position_le, hlater.current_le, hlater.warnings_prefix⟩
  · have hend := Session.run_of_run_eq_ok (Session.placed_again hp i) hok
    have hfixed : p.again j = p.again (i + 1) := by
      induction j, hij using Nat.le_induction with
      | base => rfl
      | succ j hij ih => rw [Session.again, ih, Session.again, hend]
    rw [Session.again, hfixed, Session.again, hend]
    exact ⟨rfl, rfl⟩
  · have hsettled : ∀ i, text.length ≤ i → p.again i = p.again text.length :=
      fun i hi => Session.again_of_le hp hremaining hi
    rcases houtcome : (p.again text.length).run.1 with e | value
    · refine ⟨e, fun i hi => ?_⟩
      rw [hsettled (i + 1) (Nat.le_succ_of_le hi), hsettled i hi]
      exact ⟨houtcome, rfl⟩
    · -- a success would have come to the end, where the parser already stood
      have hend := Session.run_of_run_eq_ok (Session.placed_again hp text.length) houtcome
      have hfixed : (p.again text.length).run.2 = p.again text.length :=
        hsettled (text.length + 1) (Nat.le_succ _)
      rw [hfixed] at hend
      cases houtcome.symm.trans (congrArg Prod.fst hend)

/-- A malformed number costs one evaluation, after which the token in front of it is evaluated. -/
theorem session_settles_malformedNumber :
    ∃ p, Session.start "1 2.3.4" = .ok p ∧
      (p.again 0).run.1 = .error (.lexical (.malformedNumber "2.3.4" 2)) ∧
      (p.again 1).run.1 = .ok 1.0 ∧
      ∀ j, 1 < j → (p.again j).run.1 = .error (.unexpected .endOfInput .factor 7) := by
  have h : Session.start "1 2.3.4" =
      .ok ⟨.token ⟨.number 1.0 false, 0⟩, ⟨1, " 2.3.4".toList⟩, []⟩ := by
    decide +kernel
  obtain ⟨-, -, hsuccess, -⟩ := session_settles h
  have hok : (Session.again ⟨.token ⟨.number 1.0 false, 0⟩, ⟨1, " 2.3.4".toList⟩, []⟩ 1).run.1 =
      .ok 1.0 := by
    decide +kernel
  exact ⟨_, h, by decide +kernel, hok, fun j hj => (hsuccess 1 1.0 hok j hj).1⟩

end DeskCalculator
