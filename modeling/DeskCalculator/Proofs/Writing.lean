import DeskCalculator.Proofs.Events

/-!
# What a key writes

A key that writes puts its symbol behind the line. What stands in front of the symbol then is the line
but for blanks at the end, and what stands behind it are blanks; a word or an opening parenthesis never
touches a letter or a digit (`Written`). Several keys write one after the other and leave everything but
the line and the focus alone (`run_press`).
-/

namespace DeskCalculator

namespace Key

/-- Whether a key writes a symbol at the end of the line. -/
def writes : Key → Bool
  | delete => false
  | clear _ => false
  | _ => true

/-- Whether a key writes a digit or a point, which a number may go on with. -/
def isNumeric : Key → Bool
  | digit _ => true
  | point => true
  | _ => false

/-- Whether the symbol of a key is set apart from a letter or a digit in front of it. -/
def isWord : Key → Bool
  | constant _ => true
  | call _ => true
  | leftParen => true
  | _ => false

/-- The symbol that a key writes. -/
def symbol : Key → List Char
  | digit d => [d.val.digitChar]
  | point => ['.']
  | operator op => [op.symbol]
  | constant c => c.word.toList
  | call f => f.name.toList ++ ['(']
  | leftParen => ['(']
  | rightParen => [')']
  | delete => []
  | clear _ => []

/-- Every key is on the keypad. -/
theorem mem_all (k : Key) : k ∈ all := by
  cases k with
  | digit d => revert d; decide
  | operator op => rcases op with (_ | _) | (_ | _ | _ | _) <;> decide
  | constant c => cases c <;> decide
  | call f => exact List.mem_append_left _ (List.mem_append_right _ (List.mem_map_of_mem f.mem_all))
  | clear scope => cases scope <;> decide
  | _ => decide

theorem symbol_ne_nil {k : Key} (h : k.writes = true) : k.symbol ≠ [] := by
  have hall : ∀ k ∈ all, k.writes = true → k.symbol ≠ [] := by decide +kernel
  exact hall k k.mem_all h

/-- No blank is in a symbol. -/
theorem isBlank_of_mem_symbol {k : Key} : ∀ c ∈ k.symbol, Text.isBlank c = false := by
  have hall : ∀ k ∈ all, k.symbol.all (!Text.isBlank ·) = true := by decide +kernel
  intro c hc
  rw [← Bool.not_eq_true']
  exact List.all_eq_true.1 (hall k k.mem_all) c hc

end Key

namespace Line

/-! ## One key -/

/-- How a key writes its symbol: what stands in front of it, and what behind it. -/
structure Written (line : List Char) (k : Key) (front tail : List Char) : Prop where
  edit_eq : edit k line = front ++ k.symbol ++ tail
  trimEnd_front : Text.trimEnd front = Text.trimEnd line
  tail_blank : ∀ c ∈ tail, Text.isBlank c = true
  apart : k.isWord = true → ∀ c ∈ front.getLast?, c.isAlphanum = false

theorem written_appendWord (line : List Char) (k : Key)
    (h : edit k line = appendWord line k.symbol) : ∃ front, Written line k front [] := by
  rw [appendWord] at h
  cases hends : endsSymbol line with
  | true =>
    rw [if_pos hends] at h
    refine ⟨line ++ [' '], ?_, Text.trimEnd_append_of_blank line (List.all_eq_true.1 rfl), List.forall_mem_nil _,
      fun _ c hc => ?_⟩
    · rw [h, List.append_nil, List.append_assoc]
      rfl
    · rw [List.getLast?_concat] at hc
      obtain rfl := Option.some.inj hc
      decide
  | false =>
    rw [hends, if_neg Bool.false_ne_true] at h
    refine ⟨line, by rw [h, List.append_nil], rfl, List.forall_mem_nil _, fun _ c hc => ?_⟩
    rw [endsSymbol, Option.mem_def.1 hc] at hends
    exact (Bool.or_eq_false_iff.1 hends).1

theorem exists_written {k : Key} (h : k.writes = true) (line : List Char) :
    ∃ front tail, Written line k front tail := by
  cases k with
  | digit d =>
    exact ⟨line, [], (List.append_nil _).symm, rfl, List.forall_mem_nil _, fun h => nomatch h⟩
  | point =>
    exact ⟨line, [], (List.append_nil _).symm, rfl, List.forall_mem_nil _, fun h => nomatch h⟩
  | operator op =>
    have hedit : edit (.operator op) line = appendOperator line op.symbol := rfl
    rw [appendOperator] at hedit
    by_cases hempty : (Text.trimEnd line).isEmpty = true
    · rw [if_pos hempty] at hedit
      refine ⟨[], [' '], hedit, ?_, List.all_eq_true.1 rfl, fun h => nomatch h⟩
      exact (List.isEmpty_iff.1 hempty).symm
    · rw [if_neg hempty] at hedit
      refine ⟨Text.trimEnd line ++ [' '], [' '], ?_, ?_, List.all_eq_true.1 rfl, fun h => nomatch h⟩
      · rw [hedit, Key.symbol]
        simp only [List.append_assoc, List.cons_append, List.nil_append]
      · rw [Text.trimEnd_append_of_blank _ (List.all_eq_true.1 rfl), Text.trimEnd_trimEnd]
  | constant c =>
    obtain ⟨front, hfront⟩ := written_appendWord line (.constant c) rfl
    exact ⟨front, [], hfront⟩
  | call f =>
    obtain ⟨front, hfront⟩ := written_appendWord line (.call f) rfl
    exact ⟨front, [], hfront⟩
  | leftParen =>
    obtain ⟨front, hfront⟩ := written_appendWord line .leftParen rfl
    exact ⟨front, [], hfront⟩
  | rightParen =>
    exact ⟨Text.trimEnd line, [], (List.append_nil _).symm, Text.trimEnd_trimEnd line,
      List.forall_mem_nil _, fun h => nomatch h⟩
  | delete => cases h
  | clear scope => cases h

/-! ## Several keys -/

/-- The line after some keys. -/
def typed (line : List Char) (keys : List Key) : List Char :=
  keys.foldl (fun line k => edit k line) line

theorem typed_cons (line : List Char) (k : Key) (keys : List Key) :
    typed line (k :: keys) = typed (edit k line) keys :=
  rfl

theorem typed_append (line : List Char) (keys keys' : List Key) :
    typed line (keys ++ keys') = typed (typed line keys) keys' :=
  List.foldl_append

end Line

namespace Desk

/-- Keys that clear nothing leave everything but the line and the focus alone. -/
theorem run_press (d : Desk) {keys : List Key} (hne : keys ≠ [])
    (hkeys : ∀ k ∈ keys, k.writes = true ∨ k = .delete) : d.run (keys.map .press) =
      { d with line := String.ofList (Line.typed d.line.toList keys), focus := true } := by
  induction keys generalizing d with
  | nil => exact absurd rfl hne
  | cons k keys ih =>
    obtain ⟨hk, hkeys⟩ := List.forall_mem_cons.1 hkeys
    have hpress : d.handle (.press k) =
        { d with line := String.ofList (Line.edit k d.line.toList), focus := true } := by
      cases k with
      | clear scope => rcases hk with hk | hk <;> cases hk
      | _ => rfl
    rw [List.map_cons, run_cons, hpress]
    cases keys with
    | nil => rfl
    | cons k' keys =>
      rw [ih _ (List.cons_ne_nil k' keys) hkeys, String.toList_ofList, ← Line.typed_cons]

end Desk

end DeskCalculator
