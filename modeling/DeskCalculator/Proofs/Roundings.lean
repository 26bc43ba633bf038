import DeskCalculator.MathFunction
import DeskCalculator.Proofs.Sums

/-!
# Rounding to an integer

The roundings of the machine are exact: what they leave is a whole number of ones, which is below the
powers of two that a significand has no place for unless the number was whole already (`roundBy_units`).

The rounding of the calculator asks whether a number is at least one half above the integer below it. The
difference is rounded, but never across the half: where it is less than a half it is exact
(`fraction_exact`), and where it is not, the number nearest to it is not less than a half either
(`half_le_fraction`). One more than the integer below is a number again (`floor_add_one_units`). So what is
computed is the greatest integer that is not above the number and one half (`roundHalfUp_units`,
`round_exact`).
-/

namespace DeskCalculator.Binary64

open Float.Model (Format UnpackedFloat)

/-! ## Whole numbers -/

theorem unitsOfOne_eq : unitsOfOne = 2 ^ unitExponent := by
  unfold unitsOfOne
  generalize unitExponent = n
  rfl

theorem unitsOfOne_pos : 0 < unitsOfOne :=
  unitsOfOne_eq.symm ▸ Nat.two_pow_pos unitExponent

/-- The count of a finite number: a significand of 53 bits that is doubled some times. -/
theorem exists_units (x : Float) : ∃ k, 2 ^ k ∣ units x ∧ units x < 2 ^ (53 + k) := by
  obtain ⟨k, q, hq, hk, hn⟩ := exists_significand (ordinal x)
  have hunits : units x = q * 2 ^ k := by rw [units, hn, unitsOfOrdinal_add (Nat.le_of_lt hq) hk]
  refine ⟨k, ⟨q, by rw [hunits, Nat.mul_comm]⟩, ?_⟩
  rw [hunits, Nat.pow_add]
  exact Nat.mul_lt_mul_of_pos_right hq (Nat.two_pow_pos k)

/-- A number with a fraction is less than `2^52`, and its count has no more excess bits than one has. -/
theorem units_of_not_dvd {x : Float} (h : ¬ unitsOfOne ∣ units x) :
    units x < 2 ^ 52 * unitsOfOne ∧
      ∃ k ≤ unitExponent, 2 ^ k ∣ units x ∧ units x < 2 ^ (53 + k) := by
  obtain ⟨k, hdvd, hlt⟩ := exists_units x
  have hk : k < unitExponent := by
    by_contra hge
    rw [unitsOfOne_eq] at h
    exact h ((Nat.pow_dvd_pow 2 (Nat.le_of_not_lt hge)).trans hdvd)
  rw [unitsOfOne_eq]
  refine ⟨hlt.trans_le ?_, k, Nat.le_of_lt hk, hdvd, hlt⟩
  rw [← Nat.pow_add]
  exact Nat.pow_le_pow_right (by decide) (by omega)

/-- A whole number that is not above `2^52` has no excess bits. -/
theorem unitsOfOrdinal_nearestOrdinal_whole {w : Nat} (h : w ≤ 2 ^ 52) :
    nearestOrdinal (w * unitsOfOne) 1 < infinityOrdinal ∧
      unitsOfOrdinal (nearestOrdinal (w * unitsOfOne) 1) = w * unitsOfOne := by
  have hdvd : 2 ^ unitExponent ∣ w * unitsOfOne := unitsOfOne_eq ▸ Nat.dvd_mul_left _ _
  have hlt : w * unitsOfOne < 2 ^ (53 + unitExponent) := by
    rw [Nat.pow_add, ← unitsOfOne_eq]
    exact Nat.mul_lt_mul_of_pos_right (by omega) unitsOfOne_pos
  exact unitsOfOrdinal_nearestOrdinal hdvd hlt (by decide +kernel)

/-- What a rounding of the machine leaves of a finite number. -/
theorem roundBy_units {bias : Bool → Nat} {x : Float} {b : Nat} (hx : x.isFinite = true)
    (hb : bias (isNegative x) = b) (hlt : b < unitsOfOne) :
    (roundBy bias x).isFinite = true ∧ isNegative (roundBy bias x) = isNegative x ∧
      units (roundBy bias x) = (units x + b) / unitsOfOne * unitsOfOne := by
  have hround : roundBy bias x = ofUnits (isNegative x) ((units x + b) / unitsOfOne * unitsOfOne) := by
    subst hb
    exact if_pos hx
  rw [hround]
  apply units_ofUnits
  by_cases hdvd : unitsOfOne ∣ units x
  · obtain ⟨w, hw⟩ := hdvd
    have hwhole : (units x + b) / unitsOfOne * unitsOfOne = units x := by
      rw [hw, Nat.mul_add_div unitsOfOne_pos, Nat.div_eq_of_lt hlt, Nat.add_zero, Nat.mul_comm]
    rw [hwhole]
    exact nearestOrdinal_units hx
  · refine unitsOfOrdinal_nearestOrdinal_whole ?_
    have hsmall := (units_of_not_dvd hdvd).1
    rw [← Nat.lt_succ_iff, Nat.div_lt_iff_lt_mul unitsOfOne_pos, Nat.succ_mul]
    exact Nat.add_lt_add hsmall hlt

/-! ## The integer below -/

/-- Dividing the opposite of a number rounds down, so the quotient is that of the number rounded up. -/
theorem neg_ediv_natCast {d : Nat} (hd : 0 < d) (n : Nat) :
    -(n : Int) / d = -((n + (d - 1)) / d : Nat) := by
  have hrest := Nat.div_add_mod (n + (d - 1)) d
  have hlt := Nat.mod_lt (n + (d - 1)) hd
  generalize (n + (d - 1)) / d = q at *
  generalize (n + (d - 1)) % d = r at *
  have hunique := @Int.ediv_emod_unique (-(n : Int)) d (d - 1 - r) (-q) (by omega)
  refine (hunique.2 ⟨?_, by omega, by omega⟩).1
  zify at hrest
  push_cast [Nat.cast_sub hd] at hrest
  linarith

/-- The integer below a number, in units. -/
theorem floor_units {x : Float} (hx : x.isFinite = true) :
    (floor x).isFinite = true ∧ isNegative (floor x) = isNegative x ∧
      signedUnits (floor x) = signedUnits x / unitsOfOne * unitsOfOne := by
  have hone := unitsOfOne_pos
  rw [signedUnits, signedUnits]
  cases hneg : isNegative x with
  | false =>
    obtain ⟨hfinite, hsign, hunits⟩ : (floor x).isFinite = true ∧ isNegative (floor x) = isNegative x ∧
        units (floor x) = (units x + 0) / unitsOfOne * unitsOfOne :=
      roundBy_units hx (by rw [hneg]; rfl) hone
    rw [hneg] at hsign
    rw [hsign, hunits, apply_signOf_false, apply_signOf_false]
    exact ⟨hfinite, rfl, rfl⟩
  | true =>
    obtain ⟨hfinite, hsign, hunits⟩ : (floor x).isFinite = true ∧ isNegative (floor x) = isNegative x ∧
        units (floor x) = (units x + (unitsOfOne - 1)) / unitsOfOne * unitsOfOne :=
      roundBy_units hx (by rw [hneg]; rfl) (Nat.sub_lt hone Nat.one_pos)
    rw [hneg] at hsign
    rw [hsign, hunits, apply_signOf_true, apply_signOf_true, neg_ediv_natCast hone, Int.neg_mul]
    exact ⟨hfinite, rfl, rfl⟩

/-! ## The fraction -/

/-- The count of one half. -/
def unitsOfHalf : Nat :=
  2 ^ (unitExponent - 1)

theorem unitsOfOne_eq_two_mul : unitsOfOne = 2 * unitsOfHalf := by
  have hexponent : unitExponent = (unitExponent - 1).succ := rfl
  rw [unitsOfOne_eq, unitsOfHalf, ← Nat.pow_succ', ← hexponent]

theorem unitsOfHalf_pos : 0 < unitsOfHalf :=
  Nat.two_pow_pos _

theorem isFinite_half : (0.5 : Float).isFinite = true ∧ signedUnits 0.5 = unitsOfHalf := by
  decide +kernel

theorem isFinite_one : (1.0 : Float).isFinite = true ∧ signedUnits 1.0 = unitsOfOne := by
  decide +kernel

/-- A remainder that is less than half of the divisor is not greater than the number. -/
theorem natAbs_emod_le {n : Int} {d : Nat} (hd : 0 < d) (h : 2 * (n % d) < d) :
    (n % d).natAbs ≤ n.natAbs := by
  rcases Int.lt_or_le n 0 with hneg | hpos
  · -- the divisor divides what is between a negative number and its remainder
    have hnonneg := Int.emod_nonneg n (Int.natCast_ne_zero.2 (Nat.ne_of_gt hd))
    have hdvd : (d : Int) ∣ n % d - n := Int.dvd_emod_sub_self
    have hle := Int.le_of_dvd (by omega) hdvd
    omega
  · obtain ⟨m, rfl⟩ := Int.eq_ofNat_of_zero_le hpos
    exact Nat.mod_le m d

/-- Where the difference between a number and the integer below it is less than a half, it has no more
bits than the number. -/
theorem fraction_exact {x : Float} (h : signedUnits x % unitsOfOne < unitsOfHalf) :
    (ofSignedUnits (signedUnits x % unitsOfOne)).isFinite = true ∧
      nearestUnits (signedUnits x % unitsOfOne) = signedUnits x % unitsOfOne := by
  have htwice := unitsOfOne_eq_two_mul
  by_cases hdvd : unitsOfOne ∣ units x
  · rw [Int.emod_eq_zero_of_dvd (natCast_dvd_signedUnits.2 hdvd)]
    exact nearestUnits_of_dvd (k := 0) (dvd_zero _) (Nat.two_pow_pos _) (Nat.zero_le _)
  · obtain ⟨-, k, hk, hbits, hunits⟩ := units_of_not_dvd hdvd
    have hle := natAbs_emod_le unitsOfOne_pos (n := signedUnits x) (by omega)
    have hbits : ((2 ^ k : Nat) : Int) ∣ signedUnits x := natCast_dvd_signedUnits.2 hbits
    have hbitsOne : ((2 ^ k : Nat) : Int) ∣ unitsOfOne := by
      rw [Int.natCast_dvd_natCast, unitsOfOne_eq]
      exact Nat.pow_dvd_pow 2 hk
    have hfraction : ((2 ^ k : Nat) : Int) ∣ signedUnits x % unitsOfOne := by
      rw [Int.emod_def]
      exact dvd_sub hbits (hbitsOne.mul_right _)
    rw [natAbs_signedUnits] at hle
    exact nearestUnits_of_dvd hfraction (hle.trans_lt hunits) (hk.trans (by decide +kernel))

/-- The difference between a number and the integer below it is in the range of the numbers, and rounding
it takes it neither down from a half nor up to a half. -/
theorem half_le_fraction (x : Float) :
    (ofSignedUnits (signedUnits x % unitsOfOne)).isFinite = true ∧
      ((unitsOfHalf : Int) ≤ nearestUnits (signedUnits x % unitsOfOne) ↔
        (unitsOfHalf : Int) ≤ signedUnits x % unitsOfOne) := by
  rcases Int.lt_or_le (signedUnits x % unitsOfOne) unitsOfHalf with hless | hmore
  · obtain ⟨hfinite, hexact⟩ := fraction_exact hless
    rw [hexact]
    exact ⟨hfinite, Iff.rfl⟩
  · have hlt := Int.emod_lt_of_pos (signedUnits x) (Int.natCast_pos.2 unitsOfOne_pos)
    -- it is between a half and one, which are numbers
    obtain ⟨-, hhalf⟩ := nearestOrdinal_units isFinite_half.1
    obtain ⟨hfinite, -⟩ := nearestOrdinal_units isFinite_one.1
    rw [← natAbs_signedUnits, isFinite_half.2, Int.natAbs_natCast] at hhalf
    rw [← natAbs_signedUnits, isFinite_one.2, Int.natAbs_natCast] at hfinite
    refine ⟨isFinite_ofSignedUnits.2 ((nearestOrdinal_mono ?_).trans_lt hfinite), iff_of_true ?_ hmore⟩
    · omega
    · rw [nearestUnits, decide_eq_false (by omega), apply_signOf_false, ← hhalf]
      refine Int.ofNat_le.2 (strictMono_unitsOfOrdinal.monotone (nearestOrdinal_mono ?_))
      omega

/-! ## Halves going up -/

/-- Adding a half before dividing takes the quotient up where the remainder is a half at least. -/
theorem add_half_ediv (n : Int) :
    (n + unitsOfHalf) / unitsOfOne =
      if (unitsOfHalf : Int) ≤ n % unitsOfOne then n / unitsOfOne + 1 else n / unitsOfOne := by
  have hpos : (0 : Int) < unitsOfOne := Int.natCast_pos.2 unitsOfOne_pos
  have htwice : (unitsOfOne : Int) = 2 * unitsOfHalf := by exact_mod_cast unitsOfOne_eq_two_mul
  have hsplit := Int.mul_ediv_add_emod n unitsOfOne
  have hnonneg := Int.emod_nonneg n (Int.ne_of_gt hpos)
  have hlt := Int.emod_lt_of_pos n hpos
  split
  · next hmore =>
    refine ((Int.ediv_emod_unique (r := n % unitsOfOne - unitsOfHalf) hpos).2
      ⟨?_, by omega, by omega⟩).1
    rw [Int.mul_add]
    omega
  · next hless =>
    refine ((Int.ediv_emod_unique (r := n % unitsOfOne + unitsOfHalf) hpos).2
      ⟨?_, by omega, by omega⟩).1
    omega

theorem nearestUnits_whole {w : Int} (h : w.natAbs ≤ 2 ^ 52) :
    (ofSignedUnits (w * unitsOfOne)).isFinite = true ∧ nearestUnits (w * unitsOfOne) = w * unitsOfOne := by
  apply nearestUnits_eq
  rw [Int.natAbs_mul, Int.natAbs_natCast]
  exact unitsOfOrdinal_nearestOrdinal_whole h

/-- One more than the integer below a number with a fraction is not above `2^52`. -/
theorem natAbs_ediv_add_one_le {x : Float} (h : ¬ unitsOfOne ∣ units x) :
    (signedUnits x / unitsOfOne + 1).natAbs ≤ 2 ^ 52 := by
  have hpos : (0 : Int) < unitsOfOne := Int.natCast_pos.2 unitsOfOne_pos
  have hsmall := (units_of_not_dvd h).1
  rw [← natAbs_signedUnits] at hsmall
  have hlower : -2 ^ 52 ≤ signedUnits x / unitsOfOne := by
    rw [Int.le_ediv_iff_mul_le hpos]
    omega
  have hupper : signedUnits x / unitsOfOne < 2 ^ 52 := by
    rw [Int.ediv_lt_iff_lt_mul hpos]
    omega
  omega

theorem copySign_zero {r : Float} (h : ordinal r = 0) (x : Float) :
    (copySign r x).isFinite = true ∧ signedUnits (copySign r x) = 0 ∧
      isNegative (copySign r x) = isNegative x := by
  have hordinal := ordinal_ofOrdinal (isNegative x) (Nat.zero_le infinityOrdinal)
  rw [copySign, h, isFinite_iff, signedUnits_eq_zero_iff, hordinal]
  exact ⟨by decide, rfl, isNegative_ofOrdinal _ (Nat.zero_le _)⟩

/-- What is left of a number without the integer below it is the number nearest to its fraction. -/
theorem sub_floor_units {x : Float} (hx : x.isFinite = true) :
    (x - floor x).isFinite = true ∧
      signedUnits (x - floor x) = nearestUnits (signedUnits x % unitsOfOne) := by
  obtain ⟨hfloor, -, hbelow⟩ := floor_units hx
  have hdifference : signedUnits x - signedUnits (floor x) = signedUnits x % unitsOfOne := by
    rw [hbelow, Int.emod_def, Int.mul_comm]
  rw [← hdifference]
  apply signedUnits_sub hx hfloor
  rw [hdifference]
  exact (half_le_fraction x).1

/-- What is compared with a half is whether the remainder of the count is that of a half at least. -/
theorem half_le_sub_floor {x : Float} (hx : x.isFinite = true) :
    0.5 ≤ x - floor x ↔ (unitsOfHalf : Int) ≤ signedUnits x % unitsOfOne := by
  obtain ⟨hsub, hunits⟩ := sub_floor_units hx
  rw [le_iff isFinite_half.1 hsub, isFinite_half.2, hunits, (half_le_fraction x).2]

/-- Where a number is half above the integer below it or more, one more than this integer is a number. -/
theorem floor_add_one_units {x : Float} (hx : x.isFinite = true)
    (h : (unitsOfHalf : Int) ≤ signedUnits x % unitsOfOne) :
    (floor x + 1.0).isFinite = true ∧
      signedUnits (floor x + 1.0) = (signedUnits x / unitsOfOne + 1) * unitsOfOne := by
  obtain ⟨hfloor, -, hbelow⟩ := floor_units hx
  have hfraction : ¬ unitsOfOne ∣ units x := by
    rw [← natCast_dvd_signedUnits, Int.dvd_iff_emod_eq_zero]
    have hpos := unitsOfHalf_pos
    omega
  have hsum : signedUnits (floor x) + signedUnits 1.0 =
      (signedUnits x / unitsOfOne + 1) * unitsOfOne := by
    rw [hbelow, isFinite_one.2, Int.add_mul, Int.one_mul]
  obtain ⟨hwhole, hexact⟩ := nearestUnits_whole (natAbs_ediv_add_one_le hfraction)
  rw [← hsum] at hwhole hexact
  rw [← hsum, ← hexact]
  exact signedUnits_add hfloor isFinite_one.1 hwhole

/-- What the rounding of the calculator leaves of a finite number. -/
theorem roundHalfUp_units {x : Float} (hx : x.isFinite = true) :
    (roundHalfUp x).isFinite = true ∧
      signedUnits (roundHalfUp x) = (signedUnits x + unitsOfHalf) / unitsOfOne * unitsOfOne ∧
      (signedUnits (roundHalfUp x) = 0 → isNegative (roundHalfUp x) = isNegative x) := by
  have hcompare := half_le_sub_floor hx
  obtain ⟨hfinite, hrounded⟩ : (if 0.5 ≤ x - floor x then floor x + 1.0 else floor x).isFinite = true ∧
      signedUnits (if 0.5 ≤ x - floor x then floor x + 1.0 else floor x) =
        (signedUnits x + unitsOfHalf) / unitsOfOne * unitsOfOne := by
    rw [add_half_ediv]
    by_cases hmore : (unitsOfHalf : Int) ≤ signedUnits x % unitsOfOne
    · rw [if_pos (hcompare.2 hmore), if_pos hmore]
      exact floor_add_one_units hx hmore
    · obtain ⟨hfloor, -, hbelow⟩ := floor_units hx
      rw [if_neg (mt hcompare.1 hmore), if_neg hmore]
      exact ⟨hfloor, hbelow⟩
  generalize hr : (if 0.5 ≤ x - floor x then floor x + 1.0 else floor x) = r at hfinite hrounded
  have hround : roundHalfUp x = if (r == 0.0) = true then copySign r x else r := by
    rw [← hr]
    rfl
  rw [hround, ← hrounded]
  by_cases hzero : (r == 0.0) = true
  · obtain ⟨hcopied, hunits, hsign⟩ := copySign_zero (beq_zero_iff.1 hzero) x
    rw [if_pos hzero, hunits, beq_zero_iff_signedUnits.1 hzero]
    exact ⟨hcopied, rfl, fun _ => hsign⟩
  · rw [if_neg hzero]
    exact ⟨hfinite, rfl, fun hunits => absurd (beq_zero_iff_signedUnits.2 hunits) hzero⟩

/-! ## Infinities and NaN -/

theorem sub_self_of_not_isFinite {x : Float} (hx : ¬ x.isFinite = true) : x - x = nan := by
  have hle := Nat.le_of_not_lt (mt isFinite_iff.2 hx)
  rcases Nat.lt_or_eq_of_le hle with hnan | hinfinity
  · obtain rfl := isNaN_iff_eq_nan.1 (isNaN_iff.2 hnan)
    exact (sub_nan nan).1
  · have hunpack : x.toModel.unpack = .infinity (signOf (isNegative x)) := by
      rw [unpack_toModel, ← hinfinity]
      rfl
    show Float.ofModel (Float.Model.pack
      (UnpackedFloat.sub Format.binary64 x.toModel.unpack x.toModel.unpack)) = nan
    rw [hunpack]
    cases isNegative x <;> exact pack_notANumber

theorem roundHalfUp_of_not_isFinite {x : Float} (hx : ¬ x.isFinite = true) : roundHalfUp x = x := by
  have hfloor : floor x = x := if_neg hx
  have hnan : ¬ 0.5 ≤ nan := by decide +kernel
  have hne : ¬ (x == 0.0) = true := by
    rw [beq_zero_iff]
    intro hzero
    rw [isFinite_iff, hzero] at hx
    exact hx (by decide)
  rw [roundHalfUp, hfloor, sub_self_of_not_isFinite hx]
  simp only [if_neg hnan, if_neg hne]

theorem roundHalfUp_roundHalfUp (x : Float) : roundHalfUp (roundHalfUp x) = roundHalfUp x := by
  by_cases hx : x.isFinite = true
  · obtain ⟨hfinite, hunits, -⟩ := roundHalfUp_units hx
    obtain ⟨-, hunits', hsign'⟩ := roundHalfUp_units hfinite
    have hpos : (0 : Int) < unitsOfOne := Int.natCast_pos.2 unitsOfOne_pos
    have hhalf : (unitsOfHalf : Int) / unitsOfOne = 0 := by
      have htwice := unitsOfOne_eq_two_mul
      have hhalfPos := unitsOfHalf_pos
      exact Int.ediv_eq_zero_of_lt (by omega) (by omega)
    have hsame : signedUnits (roundHalfUp (roundHalfUp x)) = signedUnits (roundHalfUp x) := by
      rw [hunits', hunits, Int.add_comm, Int.add_mul_ediv_right _ _ (Int.ne_of_gt hpos), hhalf,
        Int.zero_add]
    exact eq_of_signedUnits hsame hsign'
  · rw [roundHalfUp_of_not_isFinite hx, roundHalfUp_of_not_isFinite hx]

/-- The value of what the rounding of the calculator leaves. -/
theorem value_roundHalfUp {x : Float} (hx : x.isFinite = true) :
    value (roundHalfUp x) = ⌊value x + 1 / 2⌋ := by
  have hone : (unitsOfOne : ℚ) ≠ 0 := Nat.cast_ne_zero.2 (Nat.ne_of_gt unitsOfOne_pos)
  have htwice : (unitsOfOne : ℚ) = 2 * unitsOfHalf := by exact_mod_cast unitsOfOne_eq_two_mul
  have hshifted : value x + 1 / 2 = ((signedUnits x + unitsOfHalf : Int) : ℚ) / unitsOfOne := by
    rw [value, eq_div_iff hone, add_mul, div_mul_cancel₀ _ hone]
    push_cast
    linarith
  rw [hshifted, Rat.floor_intCast_div_natCast, value, (roundHalfUp_units hx).2.1]
  push_cast
  rw [mul_div_cancel_right₀ _ hone]

end DeskCalculator.Binary64

namespace DeskCalculator.MathFunction

open Binary64 (isNegative value)

/-- The rounding of the calculator has a value everywhere. At a finite number this is the greatest integer
that is not above the number and one half, without any error, and a zero has the sign of the number;
infinities and NaN are returned as they are; and what has been rounded is not changed by rounding it
again. -/
theorem round_exact (x : Float) :
    ∃ y, round.valueAt? x = some y ∧ round.valueAt? y = some y ∧
      (x.isFinite = true → y.isFinite = true ∧ value y = ⌊value x + 1 / 2⌋ ∧
        ((y == 0.0) = true → isNegative y = isNegative x)) ∧
      (x.isFinite = false → y = x) := by
  refine ⟨Binary64.roundHalfUp x, rfl, congrArg some (Binary64.roundHalfUp_roundHalfUp x), fun hx => ?_,
    fun hx => Binary64.roundHalfUp_of_not_isFinite (by rw [hx]; exact Bool.false_ne_true)⟩
  obtain ⟨hfinite, -, hsign⟩ := Binary64.roundHalfUp_units hx
  exact ⟨hfinite, Binary64.value_roundHalfUp hx, fun hzero =>
    hsign (Binary64.beq_zero_iff_signedUnits.1 hzero)⟩

/-- Halves on both sides of zero, the greatest number below a half, and a negative number so small that its
difference to the integer below is rounded to one. -/
example : round.valueAt? 2.5 = some 3.0 ∧ round.valueAt? (-2.5) = some (-2.0) ∧
    round.valueAt? 0.49999999999999994 = some 0.0 ∧ round.valueAt? (-1e-20) = some (-0.0) := by
  decide +kernel

end DeskCalculator.MathFunction
