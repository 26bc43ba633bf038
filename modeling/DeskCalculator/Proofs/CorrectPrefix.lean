import DeskCalculator.Proofs.Run

/-!
# Correct prefixes

A token that cannot follow is blamed as soon as it is met: what stands before it begins a sentence,
and with it nothing does. What the error says would have been accepted does begin a sentence there, and
no text behind the token can mend it (`evaluate_unexpected`).
-/

namespace DeskCalculator

/-- The kinds of tokens that an error says would have been accepted. -/
def Expected.kinds : Expected → List Kind
  | .kind k => [k]
  | .factor => [.integer, .fractional, .constant .pi, .constant .euler, .name, .leftParen,
      .operator (.sum .minus)]

/-- What a state expects is admitted there. -/
theorem State.admits_of_mem_expected {s : State} {k : Kind} (h : k ∈ s.expected.kinds) :
    s.shape.Admits k := by
  obtain ⟨outer, phase⟩ := s
  cases phase with
  | factor pending =>
    refine .inl ?_
    simp only [expected, Expected.kinds, List.mem_cons, List.not_mem_nil, or_false] at h
    rcases h with rfl | rfl | rfl | rfl | rfl | rfl | rfl <;> rfl
  | parenthesis pending name position =>
    obtain rfl := List.mem_singleton.1 h
    exact .inl rfl
  | operator sum product =>
    cases outer with
    | nil =>
      obtain rfl := List.mem_singleton.1 h
      exact .inr ⟨rfl, rfl⟩
    | cons level outer =>
      obtain rfl := List.mem_singleton.1 h
      exact .inl rfl

namespace TokenStream

/-- Only the items of a stream are read as tokens. -/
theorem lt_length_of_reading {s : TokenStream} {i : Nat} {t : Token}
    (h : s.reading i = .ok (.token t)) : i < s.items.length := by
  rw [reading] at h
  by_contra hlt
  rw [List.getElem?_eq_none (Nat.le_of_not_lt hlt)] at h
  cases hstop : s.stop <;> rw [hstop] at h <;> cases h

theorem reading_append {s : TokenStream} {i : Nat} (h : i < s.items.length) (s' : TokenStream) :
    (s.append s').reading i = s.reading i := by
  obtain ⟨items, stop⟩ := s
  cases stop with
  | error e => rfl
  | ok position =>
    simp only at h
    rw [reading, reading, append]
    simp only [List.getElem?_append_left h]
    rw [List.getElem?_eq_getElem h]

/-- The readings of a text up to a token do not change when something is written behind a blank. -/
theorem reading_ofString_append {text : String} {i : Nat}
    (h : i < (ofString text).items.length) (t : String) :
    (ofString (text ++ " " ++ t)).reading i = (ofString text).reading i := by
  have htext : (text ++ " " ++ t).toList = text.toList ++ ' ' :: t.toList := by
    simp [String.toList_append]
  rw [ofString, htext, scan_append_blank (by decide)]
  exact reading_append h _

/-- The end of the input is read behind the last character. -/
theorem position_of_reading {text : String} {i position : Nat}
    (h : (ofString text).reading i = .ok (.endOfInput position)) : position = text.length := by
  rw [reading] at h
  cases hitem : (ofString text).items[i]? with
  | some item => rw [hitem] at h; cases item <;> cases h
  | none =>
    rw [hitem] at h
    cases hstop : (ofString text).stop with
    | error e => simp [hstop, Except.map] at h
    | ok n =>
      simp only [hstop, Except.map, Except.ok.injEq, Lookahead.endOfInput.injEq] at h
      have hn := stop_scan hstop
      rw [← h, hn, Nat.zero_add, String.length_toList]

end TokenStream

/-- Where a beginning has read the first tokens of a text, what cannot follow ends the evaluation. -/
theorem evaluate_of_not_admits {text : String} {ts : List Token} {b : Beginning} {s : State}
    {ws : List Warning} {current : Lookahead} (hread : Beginning.read? {} ts = some b)
    (hvalue : b.eval? = some (s, ws)) (hnesting : b.nesting ≤ nestingLimit)
    (hts : StartsWith (TokenStream.ofString text).reading ts)
    (hcurrent : (TokenStream.ofString text).reading ts.length = .ok current)
    (hblocked : ¬ s.Blocked current.kind) (hkind : ¬ b.shape.Admits current.kind) :
    evaluate text = .error (.unexpected current.kind s.expected current.position) := by
  obtain ⟨p, q, journal, hstart, hreaches, -, rfl, -⟩ :=
    exists_reaches_of_read? hread hvalue hnesting hts hcurrent
  rw [← Beginning.shape_eval? hvalue] at hkind
  have hstep := Parser.step_of_not_admits hkind hblocked
  rw [evaluate_of_reaches hstart hreaches hstep]
  rfl

/-- An evaluation fails with an unexpected token or end only where a beginning has read what stands
before it, and it cannot follow. -/
theorem exists_read?_of_unexpected {text : String} {found : Kind} {expected : Expected}
    {position : Nat} (h : evaluate text = .error (.unexpected found expected position)) :
    ∃ ts b s ws current, Beginning.read? {} ts = some b ∧ b.eval? = some (s, ws) ∧
      b.nesting ≤ nestingLimit ∧ StartsWith (TokenStream.ofString text).reading ts ∧
      (TokenStream.ofString text).reading ts.length = .ok current ∧ current.kind = found ∧
      current.position = position ∧ s.expected = expected ∧ ¬ s.Blocked current.kind ∧
      ¬ b.shape.Admits current.kind := by
  rcases hstart : Parser.start text with e | p
  · rw [evaluate_of_start_error hstart] at h
    cases h
  obtain ⟨ts, s, q, journal, b, ws, run, -, hts, hrest, hread, hvalue, hnesting, -, hjudged, hrun⟩ :=
    exists_judged_of_start hstart
  rw [evaluate_of_start hstart, hrun] at h
  cases hjudged with
  | unexpected hblocked hkind =>
    cases h
    exact ⟨ts, b, s, ws, q.current, hread, hvalue, hnesting, hts, (hrest 0).symm, rfl, rfl, rfl,
      hblocked, hkind⟩
  | faulty _ _ _ _ _ _ hfaulty => cases hfaulty <;> cases h
  | _ => cases h

/-- When a text is refused for what stands at a place, the kinds of the tokens before it begin a
sentence, with the kind found they begin none, and with each kind that the error names they do again.
So nothing written behind a token found there changes the error. -/
theorem evaluate_unexpected {text : String} {found : Kind} {expected : Expected} {position : Nat}
    (h : evaluate text = .error (.unexpected found expected position)) :
    ∃ ts current, StartsWith (TokenStream.ofString text).reading ts ∧
      (TokenStream.ofString text).reading ts.length = .ok current ∧
      current.kind = found ∧ current.position = position ∧
      (found = .endOfInput → position = text.length) ∧
      Viable (ts.map Token.kind) ∧ ¬ Viable (ts.map Token.kind ++ [found]) ∧
      (∀ k ∈ expected.kinds, Viable (ts.map Token.kind ++ [k])) ∧
      (found ≠ .endOfInput → ∀ t : String,
        evaluate (text ++ " " ++ t) = .error (.unexpected found expected position)) := by
  obtain ⟨ts, b, s, ws, current, hread, hvalue, hnesting, hts, hcurrent, rfl, rfl, rfl, hblocked,
    hkind⟩ := exists_read?_of_unexpected h
  refine ⟨ts, current, hts, hcurrent, rfl, rfl, ?_, viable_of_read? hread, ?_, ?_, ?_⟩
  · intro hend
    cases current with
    | token t => exact absurd hend t.kind_ne_endOfInput
    | endOfInput position => exact TokenStream.position_of_reading hcurrent
  · rwa [viable_concat_iff hread]
  · intro k hk
    rw [viable_concat_iff hread, ← Beginning.shape_eval? hvalue]
    exact State.admits_of_mem_expected hk
  · intro hend t
    cases current with
    | endOfInput position => exact absurd rfl hend
    | token t' =>
      have hlt := TokenStream.lt_length_of_reading hcurrent
      refine evaluate_of_not_admits hread hvalue hnesting (fun i hi => ?_) ?_ hblocked hkind
      · rw [TokenStream.reading_ofString_append (Nat.lt_trans hi hlt), hts i hi]
      · rw [TokenStream.reading_ofString_append hlt, hcurrent]

/-- A parenthesis that closes nothing, with a text behind it and without. -/
theorem evaluate_unexpected_rightParen :
    evaluate "pi)" = .error (.unexpected .rightParen (.kind .endOfInput) 2) ∧
      evaluate ("pi)" ++ " " ++ "+ 1") =
        .error (.unexpected .rightParen (.kind .endOfInput) 2) := by
  have h : evaluate "pi)" = .error (.unexpected .rightParen (.kind .endOfInput) 2) := by
    decide +kernel
  obtain ⟨ts, current, -, -, -, -, -, -, -, -, hlast⟩ := evaluate_unexpected h
  exact ⟨h, hlast (by decide) "+ 1"⟩

end DeskCalculator
