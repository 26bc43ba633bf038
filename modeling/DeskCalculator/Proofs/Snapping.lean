import DeskCalculator.MathFunction
import DeskCalculator.Proofs.Numerals
import DeskCalculator.Proofs.Quotients

/-!
# Snapping

Whether a number is snapped is asked of its quotient by the step. The difference between the quotient and
the integer next to it is exact (`sub_roundHalfAway_units`), so that what is compared with the tolerance is
how far the rounded quotient lies from an integer (`nearMultiple_iff`). But the quotient has been rounded,
and this counts for as much as the last bit of the number (`abs_sub_mul_step_le`), and the step is not the
ratio of a circle to its diameter either. So the distance from a zero is bounded by a constant and by a part
of the number (`near_zero_of_nearMultiple`), which is small for small numbers alone: a quotient of `2^52` or
more has no fraction at all, and every such number is snapped (`nearMultiple_of_large`).
-/

namespace DeskCalculator.Binary64

/-! ## The integer next to a number -/

theorem unitsOfHalf_lt : unitsOfHalf < unitsOfOne := by
  have hpos := unitsOfHalf_pos
  rw [unitsOfOne_eq_two_mul]
  omega

theorem roundHalfAway_eq : roundHalfAway = roundBy fun _ => unitsOfHalf := by
  rw [roundHalfAway, unitsOfOne_eq_two_mul, Nat.mul_div_cancel_left _ two_pos]

/-- A count is not farther from the whole number next to it than from zero, nor farther than a half. -/
theorem natAbs_sub_rounded_le (n : Nat) :
    ((n : Int) - ((n + unitsOfHalf) / unitsOfOne * unitsOfOne : Nat)).natAbs ≤ min n unitsOfHalf := by
  have htwice := unitsOfOne_eq_two_mul
  have hsplit := Nat.div_add_mod (n + unitsOfHalf) unitsOfOne
  have hlt := Nat.mod_lt (n + unitsOfHalf) unitsOfOne_pos
  rw [Nat.mul_comm] at hsplit
  generalize unitsOfOne = u at *
  generalize unitsOfHalf = h at *
  generalize (n + h) % u = r at *
  rcases Nat.eq_zero_or_pos ((n + h) / u) with hzero | hpos
  · rw [hzero, Nat.zero_mul] at hsplit ⊢
    omega
  · have hle := Nat.mul_le_mul_right u hpos
    generalize (n + h) / u * u = w at *
    omega

/-- The integer next to a number. -/
theorem exists_roundHalfAway_units {x : Float} (hx : x.isFinite = true) :
    (roundHalfAway x).isFinite = true ∧ ∃ k : Int, signedUnits (roundHalfAway x) = k * unitsOfOne ∧
      (signedUnits x - k * unitsOfOne).natAbs ≤ min (units x) unitsOfHalf := by
  obtain ⟨hfinite, hsign, hunits⟩ : (roundBy (fun _ => unitsOfHalf) x).isFinite = true ∧
      isNegative (roundBy (fun _ => unitsOfHalf) x) = isNegative x ∧
      units (roundBy (fun _ => unitsOfHalf) x) = (units x + unitsOfHalf) / unitsOfOne * unitsOfOne :=
    roundBy_units hx rfl unitsOfHalf_lt
  have hle := natAbs_sub_rounded_le (units x)
  rw [roundHalfAway_eq, signedUnits, signedUnits, hsign, hunits]
  refine ⟨hfinite, (signOf (isNegative x)).apply ((units x + unitsOfHalf) / unitsOfOne : Nat), ?_, ?_⟩
  · rw [Nat.cast_mul, apply_mul]
  · rw [← apply_mul, ← Nat.cast_mul]
    generalize ((units x + unitsOfHalf) / unitsOfOne * unitsOfOne : Nat) = w at *
    cases isNegative x
    · exact hle
    · rw [apply_signOf_true, apply_signOf_true]
      omega

/-- The integer next to a whole number is the number itself. -/
theorem signedUnits_roundHalfAway_of_dvd {x : Float} (hx : x.isFinite = true)
    (hdvd : unitsOfOne ∣ units x) : signedUnits (roundHalfAway x) = signedUnits x := by
  obtain ⟨-, k, hk, hle⟩ := exists_roundHalfAway_units hx
  have hwhole : (unitsOfOne : Int) ∣ signedUnits x - k * unitsOfOne :=
    dvd_sub (natCast_dvd_signedUnits.2 hdvd) (dvd_mul_left _ k)
  have hzero : signedUnits x - k * unitsOfOne = 0 := by
    refine Int.eq_zero_of_dvd_of_natAbs_lt_natAbs hwhole ?_
    rw [Int.natAbs_natCast]
    exact (hle.trans (min_le_right _ _)).trans_lt unitsOfHalf_lt
  rw [hk]
  omega

/-- The difference between a number and the integer next to it is exact. -/
theorem sub_roundHalfAway_units {x : Float} (hx : x.isFinite = true) :
    (x - roundHalfAway x).isFinite = true ∧
      signedUnits (x - roundHalfAway x) = signedUnits x - signedUnits (roundHalfAway x) := by
  obtain ⟨hrounded, k, hk, hle⟩ := exists_roundHalfAway_units hx
  have hexact : (ofSignedUnits (signedUnits x - signedUnits (roundHalfAway x))).isFinite = true ∧
      nearestUnits (signedUnits x - signedUnits (roundHalfAway x)) =
        signedUnits x - signedUnits (roundHalfAway x) := by
    by_cases hdvd : unitsOfOne ∣ units x
    · rw [signedUnits_roundHalfAway_of_dvd hx hdvd, Int.sub_self]
      exact nearestUnits_of_dvd (k := 0) (dvd_zero _) (Nat.two_pow_pos _) (Nat.zero_le _)
    · obtain ⟨-, j, hj, hbits, hlt⟩ := units_of_not_dvd hdvd
      have hbitsOne : ((2 ^ j : Nat) : Int) ∣ unitsOfOne := by
        rw [Int.natCast_dvd_natCast, unitsOfOne_eq]
        exact Nat.pow_dvd_pow 2 hj
      rw [hk]
      exact nearestUnits_of_dvd (dvd_sub (natCast_dvd_signedUnits.2 hbits) (hbitsOne.mul_left k))
        ((hle.trans (min_le_left _ _)).trans_lt hlt) (hj.trans (by decide +kernel))
  obtain ⟨hfinite, hunits⟩ := signedUnits_sub hx hrounded hexact.1
  exact ⟨hfinite, hunits.trans hexact.2⟩

/-! ## What is snapped -/

theorem isFinite_snapTolerance :
    snapTolerance.isFinite = true ∧ signedUnits snapTolerance = units snapTolerance := by
  decide +kernel

/-- What is compared with the tolerance is the distance of the quotient from the integer next to it. -/
theorem nearMultiple_iff {x step : Float} (h : (x / step).isFinite = true) :
    nearMultiple x step = true ↔
      (signedUnits (x / step) - signedUnits (roundHalfAway (x / step))).natAbs < units snapTolerance := by
  obtain ⟨hdifference, hunits⟩ := sub_roundHalfAway_units h
  obtain ⟨habs, hvalue⟩ := signedUnits_abs hdifference
  rw [nearMultiple, decide_eq_true_iff, lt_iff habs isFinite_snapTolerance.1, hvalue,
    isFinite_snapTolerance.2, Int.ofNat_lt, ← natAbs_signedUnits, hunits]

/-- The tolerance is `10^-12`, but for its rounding, and half a unit is nothing to it. -/
theorem tolerance_lt : value snapTolerance + 1 / unitsOfOne / 2 < 1001 / 10 ^ 15 := by
  decide +kernel

/-- The rounded quotient of a number that is snapped is next to an integer. -/
theorem exists_abs_quotient_sub_lt {x step : Float} (hquotient : (x / step).isFinite = true)
    (h : nearMultiple x step = true) : ∃ k : ℤ, |value (x / step) - k| < value snapTolerance := by
  have hone : (0 : ℚ) < unitsOfOne := Nat.cast_pos.2 unitsOfOne_pos
  obtain ⟨-, k, hk, -⟩ := exists_roundHalfAway_units hquotient
  rw [nearMultiple_iff hquotient, hk] at h
  refine ⟨k, ?_⟩
  have hdifference : value (x / step) - k =
      ((signedUnits (x / step) - k * unitsOfOne : Int) : ℚ) / unitsOfOne := by
    rw [value]
    push_cast
    rw [sub_div, mul_div_cancel_right₀ _ hone.ne']
  rw [hdifference, abs_div, abs_of_pos hone, ← Int.cast_abs, ← Nat.cast_natAbs, value,
    isFinite_snapTolerance.2, Int.cast_natCast]
  exact div_lt_div_of_pos_right (Nat.cast_lt.2 h) hone

/-- So the number itself is next to a multiple of the step, but for a part in `2^53` of it, by which its
quotient has been rounded. -/
theorem abs_sub_mul_step_le {x step : Float} (hx : x.isFinite = true) (hstep : step.isFinite = true)
    (hone : unitsOfOne ≤ units step) (h : nearMultiple x step = true) :
    ∃ k : ℤ, |value x - k * value step| ≤ 1001 / 10 ^ 15 * |value step| + |value x| / 2 ^ 53 := by
  have hpos : 0 < units step := unitsOfOne_pos.trans_le hone
  have hzero : signedUnits step ≠ 0 := by rwa [← Int.natAbs_pos, natAbs_signedUnits]
  have hquotient := isFinite_div hx hstep hone
  obtain ⟨k, hk⟩ := exists_abs_quotient_sub_lt hquotient h
  have hrounding := abs_value_div_sub_le hx hstep hzero hquotient
  have htolerance := tolerance_lt
  have hvalue : value step ≠ 0 :=
    div_ne_zero (Int.cast_ne_zero.2 hzero) (Nat.cast_ne_zero.2 (Nat.ne_of_gt unitsOfOne_pos))
  refine ⟨k, ?_⟩
  have hscaled : value x - k * value step = (value x / value step - k) * value step := by
    field_simp
  have hmagnitude : |value x| = |value x / value step| * |value step| := by
    rw [← abs_mul, div_mul_cancel₀ _ hvalue]
  have hdistance : |value x / value step - k| ≤ 1001 / 10 ^ 15 + |value x / value step| / 2 ^ 53 := by
    have htriangle := abs_sub_le (value x / value step) (value (x / step)) k
    rw [abs_sub_comm (value x / value step) (value (x / step))] at htriangle
    generalize (1 : ℚ) / unitsOfOne = unit at *
    linarith
  rw [hscaled, abs_mul, hmagnitude]
  calc |value x / value step - k| * |value step|
      ≤ (1001 / 10 ^ 15 + |value x / value step| / 2 ^ 53) * |value step| :=
        mul_le_mul_of_nonneg_right hdistance (abs_nonneg _)
    _ = _ := by ring

/-- A number of `2^52` or more is whole. -/
theorem unitsOfOne_dvd_of_le {x : Float} (h : 2 ^ 52 * unitsOfOne ≤ units x) : unitsOfOne ∣ units x := by
  by_contra hdvd
  exact Nat.not_lt.2 h (units_of_not_dvd hdvd).1

/-- A number whose quotient is `2^52` or more is snapped, wherever it lies: the rounded quotient is an
integer. -/
theorem nearMultiple_of_large {x step : Float} (hx : x.isFinite = true) (hstep : step.isFinite = true)
    (hone : unitsOfOne ≤ units step) (hle : units step ≤ 4 * unitsOfOne)
    (h : 2 ^ 54 * unitsOfOne ≤ units x) : nearMultiple x step = true := by
  have hpos : 0 < units step := unitsOfOne_pos.trans_le hone
  have hzero : signedUnits step ≠ 0 := by rwa [← Int.natAbs_pos, natAbs_signedUnits]
  have hquotient := isFinite_div hx hstep hone
  have hlarge : 2 ^ 52 * unitsOfOne ≤ units (x / step) := by
    rw [← (unitsOfOrdinal_nearestOrdinal_whole (Nat.le_refl _)).2, units, div_eq hx hstep hzero, ofRatio,
      ordinal_ofOrdinal _ (nearestOrdinal_le _ _)]
    refine strictMono_unitsOfOrdinal.monotone (nearestOrdinal_le_of_le Nat.one_pos hpos ?_)
    calc 2 ^ 52 * unitsOfOne * units step ≤ 2 ^ 52 * unitsOfOne * (4 * unitsOfOne) :=
          Nat.mul_le_mul_left _ hle
      _ = 2 ^ 54 * unitsOfOne * unitsOfOne := by ring
      _ ≤ units x * unitsOfOne * 1 := by
          rw [Nat.mul_one]
          exact Nat.mul_le_mul_right _ h
  rw [nearMultiple_iff hquotient,
    signedUnits_roundHalfAway_of_dvd hquotient (unitsOfOne_dvd_of_le hlarge), Int.sub_self]
  decide +kernel

/-! ## The zeros -/

theorem isFinite_pi : pi.isFinite = true ∧ unitsOfOne ≤ units pi ∧ units pi ≤ 4 * unitsOfOne ∧
    value pi = 884279719003555 / 281474976710656 := by
  decide +kernel

theorem isFinite_halfPi : halfPi.isFinite = true ∧ unitsOfOne ≤ units halfPi ∧
    units halfPi ≤ 4 * unitsOfOne ∧ value halfPi = value pi / 2 := by
  decide +kernel

/-- How near the number nearest to the ratio of a circle to its diameter is to this ratio. -/
theorem abs_value_pi_sub_le : |(value pi : ℝ)| ≤ 3.2 ∧
    |(value pi : ℝ) - Real.pi| ≤ 3.9e-17 * |(value pi : ℝ)| := by
  have hlower := Real.pi_gt_d20
  have hupper := Real.pi_lt_d20
  have hvalue : (value pi : ℝ) = 884279719003555 / 281474976710656 := by
    rw [isFinite_pi.2.2.2]
    norm_num
  rw [hvalue, abs_of_pos (by norm_num), abs_le]
  refine ⟨by norm_num, ?_, ?_⟩ <;> linarith

theorem abs_value_halfPi_sub_le : |(value halfPi : ℝ)| ≤ 3.2 ∧
    |(value halfPi : ℝ) - Real.pi / 2| ≤ 3.9e-17 * |(value halfPi : ℝ)| := by
  obtain ⟨hle, hdistance⟩ := abs_value_pi_sub_le
  have hvalue : (value halfPi : ℝ) = value pi / 2 := by
    rw [isFinite_halfPi.2.2.2]
    norm_num
  have hnonneg := abs_nonneg (value pi : ℝ)
  rw [hvalue, ← sub_div, abs_div, abs_div, abs_two]
  exact ⟨by linarith, by linarith⟩

/-- A number is at most `d` away from an integer multiple of `c`. -/
def WithinOfMultiple (x : Float) (c d : ℝ) : Prop :=
  ∃ k : ℤ, |(value x : ℝ) - k * c| ≤ d

theorem WithinOfMultiple.mono {x : Float} {c d d' : ℝ} (h : WithinOfMultiple x c d) (hle : d ≤ d') :
    WithinOfMultiple x c d' := by
  obtain ⟨k, hk⟩ := h
  exact ⟨k, hk.trans hle⟩

/-- A number that is snapped lies next to a multiple of what the step stands for, the nearer the smaller it
is. -/
theorem near_zero_of_nearMultiple {x step : Float} {c : ℝ} (hx : x.isFinite = true)
    (hstep : step.isFinite = true) (hone : unitsOfOne ≤ units step)
    (hle : |(value step : ℝ)| ≤ 3.2) (hc : |(value step : ℝ) - c| ≤ 3.9e-17 * |(value step : ℝ)|)
    (h : nearMultiple x step = true) :
    WithinOfMultiple x c (4e-12 + 1.51e-16 * |(value x : ℝ)|) := by
  obtain ⟨k, hk⟩ := abs_sub_mul_step_le hx hstep hone h
  refine ⟨k, ?_⟩
  have hk : |(value x : ℝ) - k * value step| ≤
      1001 / 10 ^ 15 * |(value step : ℝ)| + |(value x : ℝ)| / 2 ^ 53 := by
    have hcast := (Rat.cast_le (K := ℝ)).2 hk
    push_cast at hcast
    exact hcast
  generalize (value x : ℝ) = v at *
  generalize (value step : ℝ) = s at *
  have hmultiple : |k * s| ≤ |v| + |v - k * s| := by
    have htriangle := abs_sub v (v - k * s)
    rwa [sub_sub_cancel] at htriangle
  have hstepError : |k * s - k * c| ≤ 3.9e-17 * |k * s| := by
    rw [← mul_sub, abs_mul, abs_mul, mul_left_comm]
    exact mul_le_mul_of_nonneg_left hc (abs_nonneg _)
  have htriangle := abs_sub_le v (k * s) (k * c)
  have hnonneg := abs_nonneg v
  linarith

theorem abs_value (x : Float) : |value x| = units x / unitsOfOne := by
  rw [value_eq, abs_mul, abs_signFactor, one_mul,
    abs_of_nonneg (div_nonneg (Nat.cast_nonneg _) (Nat.cast_nonneg _))]

theorem mul_unitsOfOne_le {x : Float} {n : Nat} (h : (n : ℚ) ≤ |value x|) : n * unitsOfOne ≤ units x := by
  rw [abs_value, le_div_iff₀ (Nat.cast_pos.2 unitsOfOne_pos), ← Nat.cast_mul] at h
  exact Nat.cast_le.1 h

theorem keepingNaN_of_isFinite {x : Float} (hx : x.isFinite = true) (f : Float → Float) :
    keepingNaN f x = f x :=
  if_neg (Numeral.not_isNaN_of_isFinite hx)

end DeskCalculator.Binary64

namespace DeskCalculator.MathFunction

open Binary64 (value nearMultiple pi halfPi WithinOfMultiple)

/-- The sine and the cosine are those of the machine but for the numbers that are snapped. A number that is
snapped lies next to a zero, but for a part of the number: not farther than `10^-6` as long as the number is
not greater than `6.6 * 10^9`. The numbers from `2^54` on are snapped wherever they lie. -/
theorem snapped_near_zeros {x : Float} (hx : x.isFinite = true) :
    sin.valueAt? x = some (if nearMultiple x pi then 0.0 else Float.sin x) ∧
      cos.valueAt? x = some (if nearMultiple x halfPi then 0.0 else Float.cos x) ∧
      (nearMultiple x pi = true →
        WithinOfMultiple x Real.pi (4e-12 + 1.51e-16 * |(value x : ℝ)|)) ∧
      (nearMultiple x halfPi = true →
        WithinOfMultiple x (Real.pi / 2) (4e-12 + 1.51e-16 * |(value x : ℝ)|)) ∧
      (|(value x : ℝ)| ≤ 6.6e9 →
        (nearMultiple x pi = true → WithinOfMultiple x Real.pi 1e-6) ∧
          (nearMultiple x halfPi = true → WithinOfMultiple x (Real.pi / 2) 1e-6)) ∧
      (2 ^ 54 ≤ |value x| → nearMultiple x pi = true ∧ nearMultiple x halfPi = true) := by
  obtain ⟨hpi, honePi, hlePi, -⟩ := Binary64.isFinite_pi
  obtain ⟨hhalf, honeHalf, hleHalf, -⟩ := Binary64.isFinite_halfPi
  have hnearPi := Binary64.near_zero_of_nearMultiple hx hpi honePi
    Binary64.abs_value_pi_sub_le.1 Binary64.abs_value_pi_sub_le.2
  have hnearHalf := Binary64.near_zero_of_nearMultiple hx hhalf honeHalf
    Binary64.abs_value_halfPi_sub_le.1 Binary64.abs_value_halfPi_sub_le.2
  refine ⟨?_, ?_, hnearPi, hnearHalf, fun hsmall => ?_, fun hlarge => ?_⟩
  · rw [← Binary64.keepingNaN_of_isFinite hx Float.sin]
    rfl
  · rw [← Binary64.keepingNaN_of_isFinite hx Float.cos]
    rfl
  · have hbound : 4e-12 + 1.51e-16 * |(value x : ℝ)| ≤ 1e-6 := by linarith
    exact ⟨fun h => (hnearPi h).mono hbound, fun h => (hnearHalf h).mono hbound⟩
  · have hunits := Binary64.mul_unitsOfOne_le (n := 2 ^ 54) (by rwa [Nat.cast_pow, Nat.cast_ofNat])
    exact ⟨Binary64.nearMultiple_of_large hx hpi honePi hlePi hunits,
      Binary64.nearMultiple_of_large hx hhalf honeHalf hleHalf hunits⟩

theorem snapped_near_zeros_ten_pi :
    (31.41592653589793 : Float).isFinite = true ∧
      (nearMultiple 31.41592653589793 pi = true ∧ sin.valueAt? 31.41592653589793 = some 0.0 ∧
        WithinOfMultiple 31.41592653589793 Real.pi 1e-6) ∧
      nearMultiple 31.41592653589793 halfPi = true ∧ cos.valueAt? 31.41592653589793 = some 0.0 ∧
        WithinOfMultiple 31.41592653589793 (Real.pi / 2) 1e-6 := by
  have hfinite : (31.41592653589793 : Float).isFinite = true := by decide +kernel
  have hpi : nearMultiple 31.41592653589793 pi = true := by decide +kernel
  have hhalf : nearMultiple 31.41592653589793 halfPi = true := by decide +kernel
  have hvalue : value 31.41592653589793 = 4421398595017775 / 140737488355328 := by decide +kernel
  obtain ⟨hsin, hcos, -, -, hnear, -⟩ := snapped_near_zeros hfinite
  have hsmall : |(value 31.41592653589793 : ℝ)| ≤ 6.6e9 := by
    rw [hvalue]
    norm_num
  rw [if_pos hpi] at hsin
  rw [if_pos hhalf] at hcos
  exact ⟨hfinite, ⟨hpi, hsin, (hnear hsmall).1 hpi⟩, hhalf, hcos, (hnear hsmall).2 hhalf⟩

/-- The sine of `2 * 10^16` is snapped to zero, and this number lies between the multiples of `π`, far from
both of its neighbours. -/
theorem snapped_far_from_zeros :
    (2e16 : Float).isFinite = true ∧ nearMultiple 2e16 pi = true ∧ sin.valueAt? 2e16 = some 0.0 ∧
      ¬ WithinOfMultiple 2e16 Real.pi 1e-6 := by
  refine ⟨by decide +kernel, by decide +kernel, by decide +kernel, ?_⟩
  rintro ⟨k, hk⟩
  have hvalue : value 2e16 = 20000000000000000 := by decide +kernel
  have hlower := Real.pi_gt_d20
  have hupper := Real.pi_lt_d20
  rw [hvalue, abs_le] at hk
  push_cast at hk
  rcases lt_or_ge k 6366197723675814 with hbelow | habove
  · have hbelow : (k : ℝ) ≤ 6366197723675813 := by exact_mod_cast Int.le_of_lt_add_one hbelow
    have hmultiple := mul_le_mul_of_nonneg_right hbelow Real.pi_pos.le
    linarith
  · have habove : (6366197723675814 : ℝ) ≤ k := by exact_mod_cast habove
    have hmultiple := mul_le_mul_of_nonneg_right habove Real.pi_pos.le
    linarith

end DeskCalculator.MathFunction
