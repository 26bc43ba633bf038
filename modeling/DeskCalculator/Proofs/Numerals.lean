import DeskCalculator.Proofs.Readings
import DeskCalculator.Proofs.Words

/-!
# Numerals read back

A finite number is written with digits and at most one point, in front of them a minus sign if it is
negative. What is written is one token to the scanner (`oneToken_numeral`), and the decimal that it spells
is read as the number (`exists_numeral_of_isFinite`).
-/

namespace DeskCalculator

/-- Digits with at most one point behind the first. -/
structure IsNumeral (cs : List Char) : Prop where
  numeric : ∀ c ∈ cs, TokenStream.isNumeric c = true
  first : ∃ c rest, cs = c :: rest ∧ c.isDigit = true
  points : cs.count '.' ≤ 1

/-! ## Positional notation -/

namespace Decimal

theorem point_ne_of_isDigit {c : Char} (h : c.isDigit = true) : c ≠ '.' := by
  rintro rfl
  exact absurd h (by decide)

/-- Digits without a point spell an integer. -/
theorem ofNumeral_of_isDigit {cs : List Char} (h : ∀ c ∈ cs, c.isDigit = true) :
    ofNumeral cs = ⟨Nat.ofDigitChars 10 cs 0, 0⟩ := by
  have hpoint : ∀ c ∈ cs, (c != '.') = true :=
    fun c hc => bne_iff_ne.2 (point_ne_of_isDigit (h c hc))
  rw [ofNumeral, List.takeWhile_eq_self_iff.2 hpoint, List.dropWhile_eq_nil_iff.2 hpoint]
  simp

/-- Digits with a point between them spell a fraction. -/
theorem ofNumeral_append_point {whole : List Char} (h : ∀ c ∈ whole, c.isDigit = true)
    (fraction : List Char) : ofNumeral (whole ++ '.' :: fraction) =
      ⟨Nat.ofDigitChars 10 (whole ++ fraction) 0, -(fraction.length : Int)⟩ := by
  have hpoint : ∀ c ∈ whole, (c != '.') = true :=
    fun c hc => bne_iff_ne.2 (point_ne_of_isDigit (h c hc))
  rw [ofNumeral, List.takeWhile_append_of_pos hpoint, List.dropWhile_append_of_pos hpoint]
  simp

/-- A decimal without a fraction is written with its digits and then zeros. -/
theorem positional_of_nonneg {d : Decimal} (h : 0 ≤ d.exponent) :
    d.positional = Nat.toDigits 10 d.digits ++ List.replicate d.exponent.toNat '0' := by
  have hplaces : (-d.exponent).toNat = 0 := by omega
  rw [positional]
  simp only [hplaces, if_true]

/-- A decimal with a fraction is written with its digits, behind some zeros, and a point among them. -/
theorem positional_of_neg {d : Decimal} (h : d.exponent < 0) :
    ∃ (zeros : Nat) (whole fraction : List Char), d.positional = whole ++ '.' :: fraction ∧
      whole ≠ [] ∧ (fraction.length : Int) = -d.exponent ∧
      whole ++ fraction = List.replicate zeros '0' ++ Nat.toDigits 10 d.digits := by
  have hplaces : (-d.exponent).toNat ≠ 0 := by omega
  have hcast : ((-d.exponent).toNat : Int) = -d.exponent := by omega
  rw [positional]
  simp only [if_neg hplaces]
  generalize (-d.exponent).toNat = places at hplaces hcast
  generalize hpadded : List.replicate (places + 1 - (Nat.toDigits 10 d.digits).length) '0' ++
    Nat.toDigits 10 d.digits = padded
  have hlength : places < padded.length := by
    rw [← hpadded, List.length_append, List.length_replicate]
    omega
  refine ⟨_, _, _, rfl, ?_, ?_, (List.take_append_drop _ _).trans hpadded.symm⟩
  · rw [Ne, List.take_eq_nil_iff]
    rintro (hzero | hnil)
    · omega
    · rw [hnil] at hlength
      exact absurd hlength (Nat.not_lt_zero _)
  · rw [List.length_drop, ← hcast]
    omega

theorem isDigit_of_mem_zeros {n : Nat} {c : Char} (h : c ∈ List.replicate n '0') :
    c.isDigit = true := by
  obtain rfl := List.eq_of_mem_replicate h
  decide

theorem isDigit_of_mem_toDigits {n : Nat} {c : Char} (h : c ∈ Nat.toDigits 10 n) :
    c.isDigit = true :=
  Nat.isDigit_of_mem_toDigits (by decide) (by decide) h

theorem isDigit_of_mem_positional {d : Decimal} (h : 0 ≤ d.exponent) :
    ∀ c ∈ d.positional, c.isDigit = true := by
  intro c hc
  rw [positional_of_nonneg h] at hc
  rcases List.mem_append.1 hc with hc | hc
  · exact isDigit_of_mem_toDigits hc
  · exact isDigit_of_mem_zeros hc

theorem isDigit_of_append_eq {zeros n : Nat} {whole fraction : List Char}
    (h : whole ++ fraction = List.replicate zeros '0' ++ Nat.toDigits 10 n) :
    ∀ c ∈ whole ++ fraction, c.isDigit = true := by
  intro c hc
  rw [h] at hc
  rcases List.mem_append.1 hc with hc | hc
  · exact isDigit_of_mem_zeros hc
  · exact isDigit_of_mem_toDigits hc

theorem isNumeric_of_isDigit {cs : List Char} (h : ∀ c ∈ cs, c.isDigit = true) :
    ∀ c ∈ cs, TokenStream.isNumeric c = true := by
  intro c hc
  rw [TokenStream.isNumeric, h c hc]
  rfl

theorem count_point_of_isDigit {cs : List Char} (h : ∀ c ∈ cs, c.isDigit = true) :
    cs.count '.' = 0 :=
  List.count_eq_zero.2 fun hpoint => point_ne_of_isDigit (h _ hpoint) rfl

theorem isNumeral_of_isDigit {cs : List Char} (h : ∀ c ∈ cs, c.isDigit = true) (hne : cs ≠ []) :
    IsNumeral cs := by
  obtain ⟨c, rest, rfl⟩ := List.exists_cons_of_ne_nil hne
  refine ⟨isNumeric_of_isDigit h, ⟨c, rest, rfl, h c List.mem_cons_self⟩, ?_⟩
  rw [count_point_of_isDigit h]
  exact Nat.zero_le 1

theorem isNumeral_append_point {whole fraction : List Char}
    (h : ∀ c ∈ whole ++ fraction, c.isDigit = true) (hne : whole ≠ []) :
    IsNumeral (whole ++ '.' :: fraction) := by
  obtain ⟨hwhole, hfraction⟩ := List.forall_mem_append.1 h
  obtain ⟨c, rest, rfl⟩ := List.exists_cons_of_ne_nil hne
  refine ⟨List.forall_mem_append.2 ⟨isNumeric_of_isDigit hwhole, ?_⟩,
    ⟨c, rest ++ '.' :: fraction, rfl, hwhole c List.mem_cons_self⟩, ?_⟩
  · exact List.forall_mem_cons.2 ⟨rfl, isNumeric_of_isDigit hfraction⟩
  · rw [List.count_append, count_point_of_isDigit hwhole, List.count_cons_self,
      count_point_of_isDigit hfraction]

/-- A decimal is written as a numeral. -/
theorem isNumeral_positional (d : Decimal) : IsNumeral d.positional := by
  rcases Int.lt_or_le d.exponent 0 with hneg | hnonneg
  · obtain ⟨zeros, whole, fraction, hpositional, hne, -, happend⟩ := positional_of_neg hneg
    rw [hpositional]
    exact isNumeral_append_point (isDigit_of_append_eq happend) hne
  · refine isNumeral_of_isDigit (isDigit_of_mem_positional hnonneg) ?_
    rw [positional_of_nonneg hnonneg]
    exact List.append_ne_nil_of_left_ne_nil Nat.toDigits_ne_nil _

/-- What a decimal is written as spells a decimal that is read as the same number. -/
theorem ordinal_ofNumeral_positional (d : Decimal) :
    (ofNumeral d.positional).ordinal = d.ordinal := by
  rcases Int.lt_or_le d.exponent 0 with hneg | hnonneg
  · obtain ⟨zeros, whole, fraction, hpositional, -, hlength, happend⟩ := positional_of_neg hneg
    obtain ⟨hwhole, -⟩ := List.forall_mem_append.1 (isDigit_of_append_eq happend)
    have hdigits : Nat.ofDigitChars 10 (whole ++ fraction) 0 = d.digits := by
      rw [happend, Nat.ofDigitChars_append, Nat.ofDigitChars_replicate_zero, Nat.mul_zero,
        Nat.ofDigitChars_ten_toDigits]
    rw [hpositional, ofNumeral_append_point hwhole, hdigits, hlength, Int.neg_neg]
  · -- the zeros at the end are digits of what is read back
    have hdigits : Nat.ofDigitChars 10 d.positional 0 = d.digits * 10 ^ d.exponent.toNat := by
      rw [positional_of_nonneg hnonneg, Nat.ofDigitChars_append, Nat.ofDigitChars_ten_toDigits,
        Nat.ofDigitChars_replicate_zero, Nat.mul_comm]
    have hplaces : (-d.exponent).toNat = 0 := by omega
    rw [ofNumeral_of_isDigit (isDigit_of_mem_positional hnonneg), hdigits, ordinal, ordinal, ratio,
      ratio]
    simp only [hplaces, Int.toNat_zero, Int.neg_zero, Nat.pow_eq, Nat.pow_zero, Nat.mul_one]

theorem ordinal_le (d : Decimal) : d.ordinal ≤ Binary64.infinityOrdinal :=
  Nat.min_le_right _ _

/-- The shortest decimal of a magnitude is read back as that magnitude. -/
theorem toFloat_ofNumeral_shortest {n : Nat} (h : n ≤ Binary64.infinityOrdinal) :
    (ofNumeral (shortest n).positional).toFloat = Binary64.ofOrdinal false n := by
  rw [toFloat, ordinal_ofNumeral_positional, ordinal_shortest h]

end Decimal

/-! ## The texts of numbers -/

namespace Numeral

open Binary64

theorem not_isNaN_of_isFinite {x : Float} (h : x.isFinite = true) : ¬ x.isNaN = true := by
  rw [isNaN_iff]
  exact Nat.lt_asymm (isFinite_iff.1 h)

theorem not_isInf_of_isFinite {x : Float} (h : x.isFinite = true) : ¬ x.isInf = true := by
  rw [isInf_iff]
  exact Nat.ne_of_lt (isFinite_iff.1 h)

/-- A finite number is written as a numeral after its sign, and its magnitude is read back. -/
theorem exists_numeral_of_isFinite {x : Float} (h : x.isFinite = true) :
    ∃ cs, IsNumeral cs ∧ (Decimal.ofNumeral cs).toFloat = ofOrdinal false (ordinal x) ∧
      text x = String.ofList (if isNegative x then '-' :: cs else cs) := by
  rw [text, if_neg (not_isNaN_of_isFinite h)]
  simp only [if_neg (not_isInf_of_isFinite h)]
  by_cases hzero : (x == 0.0) = true
  · rw [if_pos hzero, beq_zero_iff.1 hzero]
    have hnumeral : IsNumeral ['0'] :=
      Decimal.isNumeral_of_isDigit (List.all_eq_true.1 rfl) (List.cons_ne_nil _ _)
    exact ⟨['0'], hnumeral, by decide +kernel, rfl⟩
  · rw [if_neg hzero]
    exact ⟨_, Decimal.isNumeral_positional _,
      Decimal.toFloat_ofNumeral_shortest (Nat.le_of_lt (isFinite_iff.1 h)), rfl⟩

end Numeral

/-! ## Scanning -/

namespace TokenStream

theorem oneToken_numeral {cs : List Char} (h : IsNumeral cs) :
    OneToken cs (.number (Decimal.ofNumeral cs).toFloat (cs.contains '.')) := by
  intro position
  obtain ⟨hnumeric, ⟨c, rest, rfl, hc⟩, hpoints⟩ := h
  obtain ⟨hfirst, hrest⟩ := List.forall_mem_cons.1 hnumeric
  have hblank : ¬ Text.isBlank c = true := by
    intro hblank
    rw [isNumeric_of_isBlank hblank] at hfirst
    cases hfirst
  rw [scan_cons, if_neg hblank, if_pos hc, List.takeWhile_eq_self_iff.2 hrest,
    List.dropWhile_eq_nil_iff.2 hrest]
  simp only
  rw [readNumber, if_pos hpoints, scan_nil]
  rfl

end TokenStream

end DeskCalculator
