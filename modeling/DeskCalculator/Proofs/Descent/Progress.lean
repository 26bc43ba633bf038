import DeskCalculator.Proofs.CorrectPrefix
import DeskCalculator.Proofs.Descent.Unrolling
import DeskCalculator.Proofs.Session

/-!
# Progress

What a scanner reads stands where the scanner has come, or behind, and each token before whatever is read
after it (`Scanner.lt_position_of_reading`). In a session the token that stands next has been read already
(`Session.Ahead`). So a rule of the descent that returns a result has left a token behind and gone on in the
text, and an evaluation leaves each of its tokens behind once, and the end of the text once if at all
(`session_progress`).
-/

namespace DeskCalculator

/-! ## Where readings stand -/

namespace Scanner

theorem position_le_next (s : Scanner) : s.position ≤ s.next.2.position := by
  have hposition := s.cut_next.position_add_length
  have hlength := s.cut_next.suffix.length_le
  omega

theorem reading_succ (s : Scanner) (i : Nat) : s.stream.reading (i + 1) = s.next.2.stream.reading i := by
  rw [← TokenStream.reading_next, next_stream]

theorem reading_zero (s : Scanner) : s.stream.reading 0 = s.next.1 :=
  s.reading_stream 0

/-- Nothing is read before the place where the scanner has come. -/
theorem position_le_of_reading {s : Scanner} {i : Nat} {l : Lookahead}
    (h : s.stream.reading i = .ok l) : s.position ≤ l.position := by
  induction i generalizing s with
  | zero =>
    rw [reading_zero] at h
    cases l with
    | token t => exact (s.cut_next.position_of_token h).1
    | endOfInput n =>
      have hposition := s.cut_next.position_add_length
      rw [s.cut_next.rest_of_endOfInput h] at hposition
      simp only [List.length_nil] at hposition
      show s.position ≤ n
      omega
  | succ i ih =>
    rw [reading_succ] at h
    exact s.position_le_next.trans (ih h)

/-- A token stands before whatever is read after it. -/
theorem lt_position_of_reading {s : Scanner} {i j : Nat} {t : Token} {l : Lookahead} (hij : i < j)
    (hi : s.stream.reading i = .ok (.token t)) (hj : s.stream.reading j = .ok l) :
    t.position < l.position := by
  obtain ⟨j, rfl⟩ : ∃ k, j = k + 1 := ⟨j - 1, by omega⟩
  rw [reading_succ] at hj
  induction i generalizing s j with
  | zero =>
    rw [reading_zero] at hi
    exact (s.cut_next.position_of_token hi).2.trans_le (position_le_of_reading hj)
  | succ i ih =>
    obtain ⟨j, rfl⟩ : ∃ k, j = k + 1 := ⟨j - 1, by omega⟩
    rw [reading_succ] at hi hj
    exact ih hi j (by omega) hj

end Scanner

namespace Session

/-- Whether the scanner has come past the token that stands next. -/
def Ahead (p : Session) : Prop :=
  ∀ t, p.current = .token t → t.position < p.scanner.position

theorem ahead_start {text : String} {p : Session} (h : start text = .ok p) : p.Ahead := by
  have hcut := (Scanner.ofString text).cut_next
  rw [start] at h
  generalize (Scanner.ofString text).next = result at h hcut
  obtain ⟨e | current, scanner⟩ := result
  · cases h
  · cases h
    rintro t rfl
    exact (hcut.position_of_token rfl).2

theorem Ahead.skip {p : Session} (h : p.Ahead) : Ahead { p with scanner := p.scanner.next.2 } :=
  fun t ht => (h t ht).trans_le p.scanner.position_le_next

theorem ahead_advance {p : Session} {current : Lookahead} (hnext : p.scanner.next.1 = .ok current) :
    Ahead { p with current, scanner := p.scanner.next.2 } := by
  rintro t rfl
  exact (p.scanner.cut_next.position_of_token hnext).2

/-- A token stands before whatever comes after it in a session. -/
theorem lt_position_of_reading {p : Session} (h : p.Ahead) {i j : Nat} {t : Token} {l : Lookahead}
    (hij : i < j) (hi : p.parser.reading i = .ok (.token t)) (hj : p.parser.reading j = .ok l) :
    t.position < l.position := by
  obtain ⟨j, rfl⟩ : ∃ k, j = k + 1 := ⟨j - 1, by omega⟩
  cases i with
  | zero => exact (h t (Except.ok.inj hi)).trans_le (Scanner.position_le_of_reading hj)
  | succ i => exact Scanner.lt_position_of_reading (Nat.lt_of_succ_lt_succ hij) hi hj

/-- Behind the token that stands next, each token takes a character. -/
theorem le_length_of_reading {p : Session} {i : Nat} {t : Token}
    (h : p.parser.reading i = .ok (.token t)) : i ≤ p.scanner.rest.length := by
  cases i with
  | zero => exact Nat.zero_le _
  | succ i =>
    have hlt : i < p.scanner.stream.items.length := TokenStream.lt_length_of_reading h
    exact hlt.trans_le (TokenStream.length_items_scan_le _ _)

end Session

/-! ## What an evaluation leaves behind -/

/-- The record of what is left behind, a token or the end. -/
def Lookahead.record (l : Lookahead) : Record :=
  .read l.kind l.position

/-- A step that ends an evaluation leaves nothing behind, or what stands next. -/
theorem Parser.journal_of_ended {s : State} {p : Parser} {run : Run} (h : step s p = .ended run) :
    run.journal = [] ∨ run.journal = [p.current.record] := by
  rcases hcurrent : p.current with t | position
  · rcases hplan : s.plan t with e | move
    · rw [step, hcurrent] at h
      simp only [hplan] at h
      cases h
      exact .inl rfl
    rcases hnext : p.reading 1 with e | current
    · rw [step_of_unreadable hcurrent hplan hnext] at h
      cases h
      exact .inl rfl
    rw [step_of_readable hcurrent hplan hnext] at h
    rcases hperform : move.perform with e | effect
    · rw [hperform] at h
      cases h
      exact .inr rfl
    · rw [hperform] at h
      cases h
  · rw [step, hcurrent] at h
    rcases hfinish : s.finish position with e | value
    · simp only [hfinish] at h
      cases h
      exact .inl rfl
    · simp only [hfinish] at h
      cases h
      exact .inr rfl

/-- What an evaluation leaves behind, as its journal tells: the first readings, tokens but for the last. -/
theorem Parser.exists_left (p : Parser) : ∃ ls : List Lookahead,
    p.run.journal.filter Record.isRead = ls.map Lookahead.record ∧
      (∀ (i : Nat) (h : i < ls.length), p.reading i = .ok ls[i]) ∧
      ∀ i, i + 1 < ls.length → ∃ t, p.reading i = .ok (.token t) := by
  obtain ⟨ts, s, q, journal, run, hreaches, hended⟩ := exists_reaches_ended {} p
  obtain ⟨hts, hreading⟩ := hreaches.reading
  have hjournal : p.run.journal = journal ++ run.journal := by
    rw [Parser.run, hreaches.runFrom_eq, runFrom_of_ended hended]
  have htokens : journal.filter Record.isRead = (ts.map Lookahead.token).map Lookahead.record := by
    rw [hreaches.filter_isRead, List.map_map]
    rfl
  rcases journal_of_ended hended with hrun | hrun
  · refine ⟨ts.map .token, ?_, fun i h => ?_, fun i h => ?_⟩
    · rw [hjournal, hrun, List.append_nil, htokens]
    · rw [List.length_map] at h
      rw [List.getElem_map]
      exact hts i h
    · rw [List.length_map] at h
      exact ⟨_, hts i (by omega)⟩
  · refine ⟨ts.map .token ++ [q.current], ?_, fun i h => ?_, fun i h => ?_⟩
    · rw [hjournal, hrun, List.filter_append, htokens, List.map_append]
      rfl
    · rw [List.length_append, List.length_map, List.length_singleton] at h
      rcases Nat.lt_succ_iff_lt_or_eq.1 h with hlt | rfl
      · rw [List.getElem_append_left (by rwa [List.length_map]), List.getElem_map]
        exact hts i hlt
      · rw [List.getElem_append_right (by rw [List.length_map])]
        simp only [List.length_map, Nat.sub_self, List.getElem_singleton]
        exact (hreading 0).symm
    · rw [List.length_append, List.length_map, List.length_singleton] at h
      exact ⟨_, hts i (by omega)⟩

namespace Session

/-- How a rule of the descent goes over a session: its calls are not nested deeper than a bound, whatever
would be below, and it leaves some tokens behind and nothing else, which are the first readings. If it
returns a result, there has been a token, and what stands next afterwards had not been read before. -/
structure Progresses (p : Session) (limit : Option Nat) (c : Counter) (rule : Rule) (ts : List Token) :
    Prop where
  unrolled : ∀ below n, 4 * c.remaining + 4 ≤ n → Rule.unrolled limit below n rule c =
    ⟨(rule.returned limit c).result, (rule.returned limit c).counter, ts.map .token⟩
  startsWith : StartsWith p.parser.reading ts
  ne_nil : ∀ value, (rule.returned limit c).result = .ok value → ts ≠ []
  position_le : ∀ value, (rule.returned limit c).result = .ok value →
    p.scanner.position ≤ (rule.returned limit c).counter.parser.current.position
  position_lt : p.Ahead → ∀ value, (rule.returned limit c).result = .ok value →
    p.current.position < (rule.returned limit c).counter.parser.current.position

theorem exists_progresses {p : Session} {limit : Option Nat} {c : Counter} {rule : Rule}
    (hc : c.parser = p.parser) (hleast : rule.least = 1) : ∃ ts, p.Progresses limit c rule ts := by
  obtain ⟨ts, ⟨hts, hcurrent, -, hlength⟩, hunrolled⟩ := rule.settles limit c
  rw [hc] at hts hcurrent
  have hpos : ∀ value, (rule.returned limit c).result = .ok value → 0 < ts.length := by
    intro value hvalue
    exact Nat.lt_of_lt_of_le (by omega) (hlength value hvalue)
  refine ⟨ts, ⟨hunrolled, hts, fun value hvalue => ?_, fun value hvalue => ?_,
    fun hp value hvalue => ?_⟩⟩
  · exact List.ne_nil_of_length_pos (hpos value hvalue)
  · obtain ⟨i, hi⟩ := Nat.exists_eq_add_of_lt (hpos value hvalue)
    rw [hi] at hcurrent
    exact Scanner.position_le_of_reading hcurrent
  · have hlt := hpos value hvalue
    have htoken : p.current = .token ts[0] := Except.ok.inj (hts 0 hlt)
    rw [htoken]
    exact lt_position_of_reading hp hlt (hts 0 hlt) hcurrent

end Session

/-- The progress of the descent, whatever stands next, wherever the scanner has come and however many levels
are open. The scanner has come past the token that stands next: at the start, and after each reading that
is made, whether what it reads takes the place of the token or is an error. An expression, a term and a
factor come to an end, with a limit or without, and leave tokens behind: one at least if there is a value,
and never the end. An evaluation leaves everything behind once at most: what it leaves behind are the first
readings, each further on in the text than the one before, and no more than two besides one for each
character that has not been read. -/
theorem session_progress (p : Session) :
    ((∀ text, Session.start text = .ok p → p.Ahead) ∧
        (p.Ahead → Session.Ahead { p with scanner := p.scanner.next.2 } ∧
          ∀ current, p.scanner.next.1 = .ok current →
            Session.Ahead { p with current, scanner := p.scanner.next.2 })) ∧
      (∀ (limit : Option Nat) (c : Counter) (rule : Rule), c.parser = p.parser →
        rule ∈ [Rule.expression, Rule.term, Rule.factor] → ∃ ts, p.Progresses limit c rule ts) ∧
      ∃ ls : List Lookahead, p.parser.run.journal.filter Record.isRead = ls.map Lookahead.record ∧
        (∀ (i : Nat) (h : i < ls.length), p.parser.reading i = .ok ls[i]) ∧
        (p.Ahead → ls.Pairwise fun l l' => l.position < l'.position) ∧
        ls.length ≤ p.scanner.rest.length + 2 := by
  refine ⟨⟨fun text h => Session.ahead_start h, fun h => ⟨h.skip, fun current => Session.ahead_advance⟩⟩,
    fun limit c rule hc hrule => ?_, ?_⟩
  · refine Session.exists_progresses hc ?_
    rcases List.mem_cons.1 hrule with rfl | hrule
    · rfl
    rcases List.mem_cons.1 hrule with rfl | hrule
    · rfl
    obtain rfl := List.mem_singleton.1 hrule
    rfl
  · obtain ⟨ls, hjournal, hreading, htoken⟩ := p.parser.exists_left
    refine ⟨ls, hjournal, hreading, fun hp => ?_, ?_⟩
    · rw [List.pairwise_iff_getElem]
      intro i j hi hj hij
      obtain ⟨t, ht⟩ := htoken i (by omega)
      have hsame : ls[i] = .token t := Except.ok.inj ((hreading i hi).symm.trans ht)
      rw [hsame]
      exact Session.lt_position_of_reading hp hij ht (hreading j hj)
    · by_contra hlt
      obtain ⟨t, ht⟩ := htoken (p.scanner.rest.length + 1) (by omega)
      exact Nat.not_succ_le_self _ (Session.le_length_of_reading ht)

/-- A sum with no limit: there is a value, and the session has gone on. -/
theorem session_progress_sum : ∃ p : Session, Session.start "-2+3" = .ok p ∧
    (Descent.expression none ⟨p.parser, 0, 0⟩).result = .ok 1.0 ∧ p.current.position <
      (Descent.expression none ⟨p.parser, 0, 0⟩).counter.parser.current.position := by
  let p : Session := ⟨.token ⟨.operator (.sum .minus), 0⟩, ⟨1, "2+3".toList⟩, []⟩
  have hstart : Session.start "-2+3" = .ok p := by decide +kernel
  have hvalue : (Descent.expression none ⟨p.parser, 0, 0⟩).result = .ok 1.0 := by decide +kernel
  obtain ⟨⟨hahead, -⟩, hrules, -⟩ := session_progress p
  obtain ⟨ts, hts⟩ := hrules none ⟨p.parser, 0, 0⟩ .expression rfl List.mem_cons_self
  exact ⟨p, hstart, hvalue, hts.position_lt (hahead _ hstart) 1.0 hvalue⟩

end DeskCalculator
