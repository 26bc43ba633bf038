import DeskCalculator.Expression

/-!
# Calls that have values

A name in letters is looked up without regard to their case, and the only call of a function without
a value is the square root of a negative number. So an expression has a value exactly when each of its
calls names a function and none takes such a root (`Expression.isSome_eval?`).
-/

namespace DeskCalculator

namespace MathFunction

theorem name_injective {f g : MathFunction} (h : f.name = g.name) : f = g := by
  have hf := ofName?_name f
  rw [h, ofName?_name g] at hf
  exact (Option.some.inj hf).symm

theorem toLower_ne_bar {c : Char} (h : c.isAlpha = true) : c.toLower ≠ '|' := by
  intro hbar
  unfold Char.toLower at hbar
  split at hbar
  · next hupper =>
    have hval : (c.val.toNat + 32) % 2 ^ 32 = 124 :=
      (UInt32.toNat_add c.val 32).symm.trans (congrArg (fun d : Char => d.val.toNat) hbar)
    have hle : 65 ≤ c.val.toNat := UInt32.le_iff_toNat_le.1 hupper.1
    have hge : c.val.toNat ≤ 90 := UInt32.le_iff_toNat_le.1 hupper.2
    omega
  · rw [hbar] at h
    exact absurd h (by decide)

/-- A word of letters names a function when the two agree but for the case of the letters. -/
theorem ofName?_eq_some_iff {name : String} (h : name.toList.all Char.isAlpha = true)
    (f : MathFunction) : ofName? name = some f ↔ f.name.toList = name.toList.map Char.toLower := by
  have hbars : ¬ name.toList.map Char.toLower = ['|', '|'] := by
    intro hbars
    obtain ⟨c, cs, hcs, hc, -⟩ := List.map_eq_cons_iff.1 hbars
    rw [hcs, List.all_cons, Bool.and_eq_true] at h
    exact toLower_ne_bar h.1 hc
  rw [ofName?]
  simp only [if_neg hbars]
  constructor
  · intro hf
    simpa using List.find?_some hf
  · intro hf
    cases hg : all.find? fun g => g.name.toList = name.toList.map Char.toLower with
    | none => exact absurd hf (by simpa using List.find?_eq_none.1 hg f (mem_all f))
    | some g =>
      have hgname : g.name.toList = name.toList.map Char.toLower := by
        simpa using List.find?_some hg
      rw [name_injective (String.toList_inj.1 (hgname.trans hf.symm))]

theorem valueAt?_eq_none_iff {f : MathFunction} {x : Float} :
    f.valueAt? x = none ↔ f = .sqrt ∧ x < 0.0 := by
  cases f <;> simp [valueAt?]

end MathFunction

/-- Whether a call has a value wherever its argument has one: its name is that of a function, and it
is not the square root of a negative number. -/
def Callable (call : String × Expression) : Prop :=
  (∃ f, MathFunction.ofName? call.1 = some f) ∧
    (MathFunction.ofName? call.1 = some .sqrt →
      ∀ x ws, call.2.eval? = some (x, ws) → ¬ x < 0.0)

theorem Factor.isSome_eval?_call (name : String) (argument : Expression) :
    (Factor.call name argument).eval?.isSome ↔
      argument.eval?.isSome ∧ Callable (name, argument) := by
  rw [Factor.eval?, Callable]
  rcases hargument : argument.eval? with _ | ⟨x, ws⟩
  · simp
  rcases hname : MathFunction.ofName? name with _ | f
  · simp
  rcases hvalue : f.valueAt? x with _ | value
  · obtain ⟨rfl, hx⟩ := MathFunction.valueAt?_eq_none_iff.1 hvalue
    simp [hvalue, hx]
  · have hroot : f = .sqrt → ¬ x < 0.0 := by
      intro hf hx
      rw [MathFunction.valueAt?_eq_none_iff.2 ⟨hf, hx⟩] at hvalue
      cases hvalue
    simpa [hvalue] using hroot

mutual

/-- An expression has a value when all its calls have. -/
theorem Expression.isSome_eval? (e : Expression) :
    e.eval?.isSome ↔ ∀ call ∈ e.calls, Callable call := by
  cases e with
  | term t =>
    rw [Expression.calls, ← Term.isSome_eval? t, Expression.eval?]
    cases t.eval? <;> simp
  | sum left op right =>
    rw [Expression.calls, List.forall_mem_append, ← Expression.isSome_eval? left,
      ← Term.isSome_eval? right, Expression.eval?]
    cases left.eval? <;> cases right.eval? <;> cases op <;> simp

/-- A term has a value when all its calls have. -/
theorem Term.isSome_eval? (t : Term) : t.eval?.isSome ↔ ∀ call ∈ t.calls, Callable call := by
  cases t with
  | factor f =>
    rw [Term.calls, ← Factor.isSome_eval? f, Term.eval?]
    cases f.eval? <;> simp
  | product left op right =>
    rw [Term.calls, List.forall_mem_append, ← Term.isSome_eval? left,
      ← Factor.isSome_eval? right, Term.eval?]
    rcases left.eval? with _ | ⟨product, ws⟩
    · simp
    cases right.eval? <;> cases product <;> simp

/-- A factor has a value when all its calls have. -/
theorem Factor.isSome_eval? (f : Factor) : f.eval?.isSome ↔ ∀ call ∈ f.calls, Callable call := by
  cases f with
  | number value fractional => simp [Factor.eval?, Factor.calls]
  | constant c => simp [Factor.eval?, Factor.calls]
  | call name argument =>
    rw [Factor.isSome_eval?_call, Factor.calls, List.forall_mem_append,
      ← Expression.isSome_eval? argument, List.forall_mem_singleton]
  | group inner => rw [Factor.calls, ← Expression.isSome_eval? inner, Factor.eval?]
  | negation operand =>
    rw [Factor.calls, ← Factor.isSome_eval? operand, Factor.eval?]
    cases operand.eval? <;> simp

end

mutual

/-- The name of a call stands in the expression. -/
theorem Expression.name_mem_lexemes (e : Expression) {call : String × Expression}
    (h : call ∈ e.calls) : .name call.1 ∈ e.lexemes := by
  cases e with
  | term t => exact Term.name_mem_lexemes t h
  | sum left op right =>
    rw [Expression.lexemes, List.mem_append, List.mem_cons]
    rcases List.mem_append.1 h with h | h
    · exact .inl (Expression.name_mem_lexemes left h)
    · exact .inr (.inr (Term.name_mem_lexemes right h))

/-- The name of a call stands in the term. -/
theorem Term.name_mem_lexemes (t : Term) {call : String × Expression} (h : call ∈ t.calls) :
    .name call.1 ∈ t.lexemes := by
  cases t with
  | factor f => exact Factor.name_mem_lexemes f h
  | product left op right =>
    rw [Term.lexemes, List.mem_append, List.mem_cons]
    rcases List.mem_append.1 h with h | h
    · exact .inl (Term.name_mem_lexemes left h)
    · exact .inr (.inr (Factor.name_mem_lexemes right h))

/-- The name of a call stands in the factor. -/
theorem Factor.name_mem_lexemes (f : Factor) {call : String × Expression} (h : call ∈ f.calls) :
    .name call.1 ∈ f.lexemes := by
  cases f with
  | number value fractional => cases h
  | constant c => cases h
  | call name argument =>
    rw [Factor.lexemes, List.mem_cons, List.mem_cons, List.mem_append]
    rcases List.mem_append.1 h with h | h
    · exact .inr (.inr (.inl (Expression.name_mem_lexemes argument h)))
    · rw [List.mem_singleton.1 h]
      exact .inl rfl
  | group inner =>
    rw [Factor.lexemes, List.mem_cons, List.mem_append]
    exact .inr (.inl (Expression.name_mem_lexemes inner h))
  | negation operand => exact List.mem_cons_of_mem _ (Factor.name_mem_lexemes operand h)

end

end DeskCalculator
