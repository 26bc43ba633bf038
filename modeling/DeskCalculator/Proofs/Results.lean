import DeskCalculator.Proofs.Acceptance
import DeskCalculator.Proofs.Numerals

/-!
# Results as input

The text of a result can be evaluated again. A finite number comes back as it was, except that the
zeros have lost their sign; what is not finite has a text that is no expression
(`evaluate_resultText`).
-/

namespace DeskCalculator

open Binary64

/-! ## Numerals and their negations -/

/-- A numeral is evaluated to the number that it spells. -/
theorem evaluate_numeral {cs : List Char} (h : IsNumeral cs) :
    evaluate (String.ofList cs) =
      .ok ⟨(Decimal.ofNumeral cs).toFloat, [], listing (String.ofList cs)⟩ := by
  let ts : List Token := [⟨.number (Decimal.ofNumeral cs).toFloat (cs.contains '.'), 0⟩]
  have htext : TokenStream.ofString (String.ofList cs) = ⟨ts.map .ok, .ok (0 + cs.length)⟩ := by
    rw [TokenStream.ofString, String.toList_ofList, TokenStream.oneToken_numeral h]
    rfl
  exact evaluate_of_items (.term (.factor (.number _ _))) htext rfl (Nat.zero_le _) rfl

/-- A numeral after a minus sign is evaluated to the negation of the number that it spells. -/
theorem evaluate_minus_numeral {cs : List Char} (h : IsNumeral cs) :
    evaluate (String.ofList ('-' :: cs)) =
      .ok ⟨-(Decimal.ofNumeral cs).toFloat, [], listing (String.ofList ('-' :: cs))⟩ := by
  let ts : List Token := [⟨.operator (.sum .minus), 0⟩,
    ⟨.number (Decimal.ofNumeral cs).toFloat (cs.contains '.'), 1⟩]
  have htext : TokenStream.ofString (String.ofList ('-' :: cs)) =
      ⟨ts.map .ok, .ok (1 + cs.length)⟩ := by
    rw [TokenStream.ofString, String.toList_ofList, TokenStream.scan_cons, if_neg (by decide),
      if_neg (by decide), if_neg (by decide)]
    show TokenStream.cons _ (TokenStream.scan 1 cs) = _
    rw [TokenStream.oneToken_numeral h]
    rfl
  have hlimit : 1 ≤ nestingLimit := by decide
  exact evaluate_of_items (.term (.factor (.negation (.number _ _)))) htext rfl hlimit rfl

/-! ## Results -/

theorem resultText_of_zero {x : Float} (h : ordinal x = 0) : Numeral.resultText x = "0" := by
  have hfinite : x.isFinite = true := isFinite_iff.2 (by rw [h]; decide)
  rw [Numeral.resultText, if_neg (Numeral.not_isNaN_of_isFinite hfinite),
    if_neg (Numeral.not_isInf_of_isFinite hfinite), if_pos (beq_zero_iff.2 h)]

theorem resultText_of_isFinite {x : Float} (hfinite : x.isFinite = true) (h : ordinal x ≠ 0) :
    Numeral.resultText x = Numeral.text x := by
  rw [Numeral.resultText, if_neg (Numeral.not_isNaN_of_isFinite hfinite),
    if_neg (Numeral.not_isInf_of_isFinite hfinite), if_neg fun hzero => h (beq_zero_iff.1 hzero)]

/-- A number that is neither finite nor NaN is an infinity. -/
theorem resultText_of_not_isFinite {x : Float} (h : ¬ x.isFinite = true) :
    Numeral.resultText x ∈ ["NaN", "∞", "-∞"] := by
  rw [isFinite_iff, Nat.not_lt] at h
  rw [Numeral.resultText]
  by_cases hnan : x.isNaN = true
  · rw [if_pos hnan]
    decide
  rw [isNaN_iff] at hnan
  rw [if_neg (isNaN_iff.not.2 hnan), if_pos (isInf_iff.2 (by omega))]
  cases isNegative x <;> decide

/-- A finite number is read back from its text. -/
theorem evaluate_text {x : Float} (hfinite : x.isFinite = true) :
    evaluate (Numeral.text x) = .ok ⟨x, [], listing (Numeral.text x)⟩ := by
  obtain ⟨cs, hcs, hvalue, htext⟩ := Numeral.exists_numeral_of_isFinite hfinite
  have hle : ordinal x ≤ infinityOrdinal := Nat.le_of_lt (isFinite_iff.1 hfinite)
  have hx := ofOrdinal_isNegative_ordinal x
  rw [htext]
  cases hsign : isNegative x with
  | false =>
    rw [if_neg Bool.false_ne_true, evaluate_numeral hcs, hvalue, ← hsign, hx]
  | true =>
    rw [if_pos rfl, evaluate_minus_numeral hcs, hvalue, neg_ofOrdinal _ hle, Bool.not_false, ← hsign,
      hx]

theorem evaluate_resultText_of_not_isFinite {x : Float} (h : ¬ x.isFinite = true) :
    ∀ ev, evaluate (Numeral.resultText x) ≠ .ok ev := by
  have herror : ∀ text ∈ ["NaN", "∞", "-∞"], ¬ (evaluate text).isOk = true := by decide +kernel
  intro ev hev
  refine herror _ (resultText_of_not_isFinite h) ?_
  rw [hev]
  rfl

/-- The text of a zero is evaluated to the positive zero. -/
theorem evaluate_resultText_of_zero {x : Float} (h : ordinal x = 0) :
    evaluate (Numeral.resultText x) = .ok ⟨0.0, [], "0"⟩ := by
  rw [resultText_of_zero h]
  decide +kernel

/-- The text of any other finite result is evaluated to that result. -/
theorem evaluate_resultText_of_isFinite {x : Float} (hfinite : x.isFinite = true)
    (h : ordinal x ≠ 0) :
    evaluate (Numeral.resultText x) = .ok ⟨x, [], listing (Numeral.resultText x)⟩ := by
  rw [resultText_of_isFinite hfinite h]
  exact evaluate_text hfinite

/-- The text of a result can be evaluated if and only if the result is finite. Then there is no warning
and the value equals the result; it is the same number, bit for bit, but for the negative zero, which
comes back as the positive one. -/
theorem evaluate_resultText (x : Float) :
    ((∃ ev, evaluate (Numeral.resultText x) = .ok ev) ↔ x.isFinite = true) ∧
      (x.isFinite = true → ∃ ev, evaluate (Numeral.resultText x) = .ok ev ∧ ev.warnings = [] ∧
        (ev.value == x) = true ∧
        ev.value.toBits = if x.toBits = (-0.0 : Float).toBits then (0.0 : Float).toBits
          else x.toBits) := by
  refine ⟨⟨fun ⟨ev, hev⟩ => ?_, fun hfinite => ?_⟩, fun hfinite => ?_⟩
  · by_contra hfinite
    exact evaluate_resultText_of_not_isFinite hfinite ev hev
  · by_cases hzero : ordinal x = 0
    · exact ⟨_, evaluate_resultText_of_zero hzero⟩
    · exact ⟨_, evaluate_resultText_of_isFinite hfinite hzero⟩
  · by_cases hzero : ordinal x = 0
    · refine ⟨_, evaluate_resultText_of_zero hzero, rfl, ?_⟩
      have hx : ofOrdinal (isNegative x) 0 = x := hzero ▸ ofOrdinal_isNegative_ordinal x
      rw [← hx]
      cases isNegative x <;> decide +kernel
    · refine ⟨_, evaluate_resultText_of_isFinite hfinite hzero, rfl, beq_self_of_isFinite hfinite,
        ?_⟩
      have hbits : x.toBits ≠ (-0.0 : Float).toBits := by
        intro hbits
        refine hzero ?_
        rw [ordinal, hbits]
        decide +kernel
      rw [if_neg hbits]

/-- A negative number whose text is not all of its digits. -/
theorem evaluate_resultText_negative : Numeral.resultText (-0.1) = "-0.1" ∧
    ∃ ev, evaluate "-0.1" = .ok ev ∧ ev.warnings = [] ∧
      ev.value.toBits = (-0.1 : Float).toBits := by
  have htext : Numeral.resultText (-0.1) = "-0.1" := by decide +kernel
  obtain ⟨ev, hev, hwarnings, -, hbits⟩ := (evaluate_resultText (-0.1)).2 (by decide +kernel)
  rw [htext] at hev
  exact ⟨htext, ev, hev, hwarnings, hbits.trans (if_neg (by decide +kernel))⟩

end DeskCalculator
