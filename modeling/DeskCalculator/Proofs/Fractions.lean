import DeskCalculator.MathFunction
import DeskCalculator.Proofs.Roundings

/-!
# Fractional parts

The fractional part of a number is what is left of it without the integer below it, rounded to a number
(`sub_floor_units`). Rounding keeps it between zero and one, and takes nothing but zero to zero; but it
takes what is nearer to one than to the number below one up to one (`nearestUnits_eq_one_iff`). Only the
numbers just below zero have so large a fraction: anywhere else they lie farther apart
(`fraction_near_one_iff`).
-/

namespace DeskCalculator.Binary64

/-! ## Rounding between zero and one -/

/-- The count of half the distance between one and the number below it. -/
def unitsOfHalfBit : Nat :=
  2 ^ (unitExponent - 54)

theorem unitsOfHalfBit_pos : 0 < unitsOfHalfBit :=
  Nat.two_pow_pos _

theorem unitsOfOne_eq_mul_halfBit : unitsOfOne = 2 ^ 54 * unitsOfHalfBit := by
  rw [unitsOfOne_eq, unitsOfHalfBit, ← Nat.pow_add]
  exact congrArg (2 ^ ·) (by decide : unitExponent = 54 + (unitExponent - 54))

theorem nearestUnits_mono {m n : Nat} (h : m ≤ n) : nearestUnits m ≤ nearestUnits n := by
  have hnatCast (k : Nat) : nearestUnits k = (unitsOfOrdinal (nearestOrdinal k 1) : Nat) := by
    rw [nearestUnits, decide_eq_false (Int.not_lt.2 (Int.natCast_nonneg k)), apply_signOf_false,
      Int.natAbs_natCast]
  rw [hnatCast, hnatCast]
  exact Int.ofNat_le.2 (strictMono_unitsOfOrdinal.monotone (nearestOrdinal_mono h))

theorem nearestUnits_zero : nearestUnits (0 : Nat) = 0 ∧ nearestUnits (1 : Nat) = 1 := by
  decide +kernel

theorem nearestUnits_one : nearestUnits unitsOfOne = unitsOfOne := by
  have h := (nearestUnits_whole (w := 1) (by decide)).2
  rwa [Int.one_mul] at h

/-- Half a bit below one is rounded up to one, and what is below that is not. -/
theorem nearestUnits_below_one :
    nearestUnits (unitsOfOne - unitsOfHalfBit : Nat) = unitsOfOne ∧
      nearestUnits (unitsOfOne - unitsOfHalfBit - 1 : Nat) < unitsOfOne := by
  decide +kernel

theorem nearestUnits_bounds {n : Nat} (h : n ≤ unitsOfOne) :
    0 ≤ nearestUnits n ∧ nearestUnits n ≤ unitsOfOne := by
  have hlower := nearestUnits_mono (Nat.zero_le n)
  have hupper := nearestUnits_mono h
  rw [nearestUnits_zero.1] at hlower
  rw [nearestUnits_one] at hupper
  exact ⟨hlower, hupper⟩

theorem nearestUnits_eq_zero_iff {n : Nat} : nearestUnits n = 0 ↔ n = 0 := by
  rcases Nat.eq_zero_or_pos n with rfl | hpos
  · exact iff_of_true nearestUnits_zero.1 rfl
  · have hle := nearestUnits_mono hpos
    rw [nearestUnits_zero.2] at hle
    exact iff_of_false (by omega) (Nat.ne_of_gt hpos)

theorem nearestUnits_eq_one_iff {n : Nat} (h : n ≤ unitsOfOne) :
    nearestUnits n = unitsOfOne ↔ unitsOfOne ≤ n + unitsOfHalfBit := by
  obtain ⟨hup, hdown⟩ := nearestUnits_below_one
  rcases Nat.lt_or_ge (n + unitsOfHalfBit) unitsOfOne with hless | hmore
  · have hle := nearestUnits_mono (Nat.le_sub_one_of_lt (Nat.lt_sub_of_add_lt hless))
    exact iff_of_false (hle.trans_lt hdown).ne (Nat.not_le.2 hless)
  · have hle := nearestUnits_mono (Nat.sub_le_of_le_add hmore)
    rw [hup] at hle
    exact iff_of_true ((nearestUnits_bounds h).2.antisymm hle) hmore

/-! ## Fractions next to one -/

/-- The bits of a half and of what is greater are not below that of one half. -/
theorem two_mul_halfBit_dvd {x : Float} (h : 2 ^ 53 * unitsOfHalfBit ≤ units x) :
    2 * unitsOfHalfBit ∣ units x := by
  obtain ⟨k, hdvd, hlt⟩ := exists_units x
  obtain ⟨j, hj⟩ : ∃ j, unitsOfHalfBit = 2 ^ j := ⟨_, rfl⟩
  rw [hj, ← Nat.pow_add] at h
  have hk := (Nat.pow_lt_pow_iff_right Nat.one_lt_two).1 (h.trans_lt hlt)
  rw [hj, ← Nat.pow_succ']
  exact (Nat.pow_dvd_pow 2 (by omega)).trans hdvd

/-- Of the numbers above an integer, those just below the next one are just below zero. -/
theorem fraction_near_one_iff (x : Float) :
    (unitsOfOne : Int) ≤ signedUnits x % unitsOfOne + unitsOfHalfBit ↔
      -(unitsOfHalfBit : Int) ≤ signedUnits x ∧ signedUnits x < 0 := by
  have hone := unitsOfOne_eq_mul_halfBit
  have hbit := unitsOfHalfBit_pos
  have hlt := Int.emod_lt_of_pos (signedUnits x) (Int.natCast_pos.2 unitsOfOne_pos)
  have hbelow (hneg : signedUnits x < 0) (hlower : -(unitsOfOne : Int) ≤ signedUnits x) :
      signedUnits x % unitsOfOne = signedUnits x + unitsOfOne := by
    rw [← Int.add_emod_right, Int.emod_eq_of_lt (by omega) (by omega)]
  constructor
  · intro hnear
    rcases Nat.lt_or_ge (units x) (2 ^ 53 * unitsOfHalfBit) with hsmall | hlarge
    · rw [← natAbs_signedUnits] at hsmall
      rcases Int.lt_or_le (signedUnits x) 0 with hneg | hpos
      · have hremainder := hbelow hneg (by omega)
        omega
      · have hremainder := Int.emod_eq_of_lt hpos (by omega : signedUnits x < unitsOfOne)
        omega
    · -- the gap to the next integer has no bits that small
      have hdvd := natCast_dvd_signedUnits.2 (two_mul_halfBit_dvd hlarge)
      have hdvdOne : ((2 * unitsOfHalfBit : Nat) : Int) ∣ unitsOfOne := by
        rw [Int.natCast_dvd_natCast, hone]
        exact Nat.mul_dvd_mul_right (by decide) _
      have hdvdGap : ((2 * unitsOfHalfBit : Nat) : Int) ∣ unitsOfOne - signedUnits x % unitsOfOne := by
        rw [Int.emod_def]
        exact dvd_sub hdvdOne (dvd_sub hdvd (hdvdOne.mul_right _))
      have hle := Int.le_of_dvd (by omega) hdvdGap
      omega
  · rintro ⟨hlower, hneg⟩
    have hremainder := hbelow hneg (by omega)
    omega

/-! ## What is left of a number without the integer below it -/

theorem sub_floor_bounds {x : Float} (hx : x.isFinite = true) :
    (x - floor x).isFinite = true ∧ 0 ≤ signedUnits (x - floor x) ∧
      signedUnits (x - floor x) ≤ unitsOfOne ∧
      (signedUnits (x - floor x) = unitsOfOne ↔
        -(unitsOfHalfBit : Int) ≤ signedUnits x ∧ signedUnits x < 0) ∧
      (signedUnits (x - floor x) = 0 ↔ (unitsOfOne : Int) ∣ signedUnits x) := by
  obtain ⟨hfinite, hunits⟩ := sub_floor_units hx
  have hpos : (0 : Int) < unitsOfOne := Int.natCast_pos.2 unitsOfOne_pos
  have hlt := Int.emod_lt_of_pos (signedUnits x) hpos
  obtain ⟨n, hn⟩ := Int.eq_ofNat_of_zero_le (Int.emod_nonneg (signedUnits x) hpos.ne')
  rw [hn, Int.ofNat_lt] at hlt
  obtain ⟨hlower, hupper⟩ := nearestUnits_bounds (Nat.le_of_lt hlt)
  rw [hunits, ← fraction_near_one_iff, Int.dvd_iff_emod_eq_zero, hn, ← Int.natCast_add, Int.ofNat_le,
    Int.natCast_eq_zero]
  exact ⟨hfinite, hlower, hupper, nearestUnits_eq_one_iff (Nat.le_of_lt hlt), nearestUnits_eq_zero_iff⟩

theorem value_eq_intCast_iff {x : Float} {k : Int} : value x = k ↔ signedUnits x = k * unitsOfOne := by
  rw [value, div_eq_iff (Nat.cast_ne_zero.2 (Nat.ne_of_gt unitsOfOne_pos)), ← Int.cast_natCast,
    ← Int.cast_mul, Int.cast_inj]

theorem le_value_iff {x : Float} : -1 / 2 ^ 54 ≤ value x ↔ -(unitsOfHalfBit : Int) ≤ signedUnits x := by
  have hone : (unitsOfOne : ℚ) = 2 ^ 54 * unitsOfHalfBit := by
    rw [unitsOfOne_eq_mul_halfBit, Nat.cast_mul, Nat.cast_pow, Nat.cast_ofNat]
  have hbit : (unitsOfHalfBit : ℚ) ≠ 0 := Nat.cast_ne_zero.2 (Nat.ne_of_gt unitsOfHalfBit_pos)
  have hscaled : (-1 / 2 ^ 54 : ℚ) = ((-(unitsOfHalfBit : Int) : Int) : ℚ) / unitsOfOne := by
    rw [hone, Int.cast_neg, Int.cast_natCast]
    field_simp
  rw [hscaled, value, div_le_div_iff_of_pos_right (Nat.cast_pos.2 unitsOfOne_pos), Int.cast_le]

end DeskCalculator.Binary64

namespace DeskCalculator.MathFunction

open Binary64 (value)

/-- The fractional part of a finite number is a number from zero to one. It is zero for the integers alone,
and one for the numbers just below zero alone, which have a fraction that is nearer to one than to the
number below one. -/
theorem fracpart_bounds {x : Float} (hx : x.isFinite = true) :
    ∃ y, fracpart.valueAt? x = some y ∧ y.isFinite = true ∧ 0 ≤ value y ∧ value y ≤ 1 ∧
      (value y = 1 ↔ -1 / 2 ^ 54 ≤ value x ∧ value x < 0) ∧
      (value y = 0 ↔ ∃ k : ℤ, value x = k) := by
  have hpos : (0 : ℚ) < Binary64.unitsOfOne := Nat.cast_pos.2 Binary64.unitsOfOne_pos
  obtain ⟨hfinite, hlower, hupper, hone, hzero⟩ := Binary64.sub_floor_bounds hx
  refine ⟨x - Binary64.floor x, rfl, hfinite, ?_, ?_, ?_, ?_⟩
  · exact div_nonneg (Int.cast_nonneg hlower) hpos.le
  · rw [value, div_le_one hpos, ← Int.cast_natCast, Int.cast_le]
    exact hupper
  · rw [Binary64.le_value_iff, ← Int.cast_one, Binary64.value_eq_intCast_iff, Int.one_mul, hone,
      value, div_lt_iff₀ hpos, zero_mul, Int.cast_lt_zero]
  · rw [← Int.cast_zero, Binary64.value_eq_intCast_iff, Int.zero_mul, hzero]
    exact exists_congr fun k => by rw [Binary64.value_eq_intCast_iff, Int.mul_comm]

theorem fracpart_bounds_below_zero :
    (-5.551115123125783e-17 : Float).isFinite = true ∧ value (-5.551115123125783e-17) = -1 / 2 ^ 54 ∧
      ∃ y, fracpart.valueAt? (-5.551115123125783e-17) = some y ∧ value y = 1 := by
  have hfinite : (-5.551115123125783e-17 : Float).isFinite = true := by decide +kernel
  have hvalue : value (-5.551115123125783e-17) = -1 / 2 ^ 54 := by decide +kernel
  obtain ⟨y, hy, -, -, -, hone, -⟩ := fracpart_bounds hfinite
  exact ⟨hfinite, hvalue, y, hy, hone.2 (by rw [hvalue]; norm_num)⟩

/-- The fractional part of a number just below zero is one. -/
theorem fracpart_not_lt_one :
    (-1e-20 : Float).isFinite = true ∧ fracpart.valueAt? (-1e-20) = some 1.0 ∧ ¬ value 1.0 < 1 := by
  decide +kernel

end DeskCalculator.MathFunction
