import DeskCalculator.Proofs.Roundings

/-!
# Quotients

The machine divides the significands until the quotient has more bits than a significand, notes what is
left, and rounds. So a quotient of two numbers is the number nearest to the quotient of their counts
(`div_eq`), which is not farther from it than half of its last bit: a part in `2^53` of the quotient, or
half a unit (`abs_value_div_sub_le`).
-/

namespace DeskCalculator.Binary64

open Float.Model (Format UnpackedFloat)
open Float.Model.UnpackedFloat

/-! ## The nearest number to a quotient -/

/-- Only the value of a quotient matters. -/
theorem roundHalfEven_congr {num den num' den' : Nat} (hden : 0 < den) (hden' : 0 < den')
    (h : num * den' = num' * den) : roundHalfEven num den = roundHalfEven num' den' := by
  rw [← roundHalfEven_mul_left hden' num den, ← roundHalfEven_mul_left hden num' den',
    Nat.mul_comm den' num, h, Nat.mul_comm num' den, Nat.mul_comm den' den]

theorem nearestOrdinal_le_of_le {num den num' den' : Nat} (hden : 0 < den) (hden' : 0 < den')
    (h : num * den' ≤ num' * den) : nearestOrdinal num den ≤ nearestOrdinal num' den' := by
  rw [← nearestOrdinal_mul_left hden' num den, ← nearestOrdinal_mul_left hden num' den',
    Nat.mul_comm den' den]
  exact nearestOrdinal_mono (by rwa [Nat.mul_comm den' num, Nat.mul_comm den num'])

theorem nearestOrdinal_zero (den : Nat) : nearestOrdinal 0 den = 0 := by
  have hround : ∀ d, roundHalfEven 0 d = 0 := by
    intro d
    rw [roundHalfEven, Nat.zero_div, Nat.zero_mod]
    exact if_pos (by omega)
  have hexcess : excess 0 = 0 := by decide
  rw [nearestOrdinal_eq, Nat.zero_div, hround, hexcess]
  exact Nat.zero_min _

/-- Rounding to an integer is off by a half at most. -/
theorem roundHalfEven_error (num : Nat) {den : Nat} (hden : 0 < den) :
    |2 * (roundHalfEven num den * den - num : Int)| ≤ den := by
  have hsplit := Nat.div_add_mod num den
  have hlt := Nat.mod_lt num hden
  rw [roundHalfEven, abs_le]
  generalize num / den = q at *
  generalize num % den = r at *
  have hnum : (num : Int) = q * den + r := by rw [← hsplit]; push_cast; ring
  rw [hnum]
  split
  · omega
  · push_cast
    rw [add_mul]
    omega

/-- A finite number is off from the quotient that it is nearest to by half of its last bit at most. -/
theorem unitsOfOrdinal_nearestOrdinal_error (num : Nat) {den : Nat} (hden : 0 < den)
    (hfinite : nearestOrdinal num den < infinityOrdinal) :
    |2 * (unitsOfOrdinal (nearestOrdinal num den) * den - num : Int)| ≤
      den * 2 ^ excess (num / den) := by
  obtain ⟨hle, hk⟩ := roundHalfEven_excess num den
  have herror := roundHalfEven_error num (Nat.mul_pos hden (Nat.two_pow_pos (excess (num / den))))
  rw [nearestOrdinal_eq, min_lt_iff, or_iff_left (Nat.lt_irrefl _)] at hfinite
  rw [nearestOrdinal_eq, Nat.min_eq_left (Nat.le_of_lt hfinite), unitsOfOrdinal_add hle hk]
  push_cast at herror ⊢
  rwa [mul_assoc, mul_comm ((2 : Int) ^ _)]

/-- The last bit is a part in `2^52` of the quotient at most, or a unit. -/
theorem two_pow_excess_div_le (num den : Nat) :
    (2 : ℚ) ^ excess (num / den) ≤ num / den / 2 ^ 52 + 1 := by
  have hpos : (0 : ℚ) < 2 ^ 52 := by positivity
  have hquotient : (0 : ℚ) ≤ num / den / 2 ^ 52 := by positivity
  by_cases he : excess (num / den) = 0
  · rw [he, pow_zero]
    exact le_add_of_nonneg_left hquotient
  · have hle : (2 : ℚ) ^ (52 + excess (num / den)) ≤ (num / den : Nat) := by
      exact_mod_cast two_pow_excess_le he
    rw [pow_add, mul_comm, ← le_div_iff₀ hpos] at hle
    have hcast : ((num / den : Nat) : ℚ) / 2 ^ 52 ≤ num / den / 2 ^ 52 :=
      div_le_div_of_nonneg_right Nat.cast_div_le hpos.le
    exact hle.trans (hcast.trans (le_add_of_nonneg_right zero_le_one))

theorem abs_sub_div_le {u num den e : Nat} (hden : 0 < den)
    (h : |2 * (u * den - num : Int)| ≤ den * 2 ^ e) : |(u : ℚ) - num / den| ≤ 2 ^ e / 2 := by
  have hpos : (0 : ℚ) < den := Nat.cast_pos.2 hden
  have hscaled : (2 * (u * den - num) : ℚ) = den * (2 * (u - num / den)) := by
    field_simp
  have h : |(2 * (u * den - num) : ℚ)| ≤ den * 2 ^ e := by exact_mod_cast h
  rw [hscaled, abs_mul, abs_of_pos hpos, mul_le_mul_iff_right₀ hpos, abs_mul, abs_two] at h
  linarith

/-- So it is off by a part in `2^53` of the quotient, or by half a unit. -/
theorem abs_nearest_sub_le (num : Nat) {den : Nat} (hden : 0 < den)
    (hfinite : nearestOrdinal num den < infinityOrdinal) :
    |(unitsOfOrdinal (nearestOrdinal num den) : ℚ) - num / den| ≤
      (num / den / 2 ^ 52 + 1) / 2 :=
  (abs_sub_div_le hden (unitsOfOrdinal_nearestOrdinal_error num hden hfinite)).trans
    (div_le_div_of_nonneg_right (two_pow_excess_div_le num den) zero_le_two)

/-! ## Shifting a quotient -/

theorem represents_accuracyOfFraction (m : Nat) {d : Nat} (hd : 0 < d) :
    Represents (.ofMantissaAndAccuracy (m / d) (accuracyOfFraction (m % d) d)) m d := by
  have hlt := Nat.mod_lt m hd
  rw [accuracyOfFraction]
  split
  · next hzero =>
    refine ⟨rfl, iff_of_false Bool.false_ne_true ?_, iff_of_false Bool.false_ne_true ?_⟩
    · omega
    · exact fun h => h.1 hzero
  · next hne =>
    rcases lt_trichotomy (2 * (m % d)) d with hless | heq | hmore
    · rw [Nat.compare_eq_lt.2 hless]
      exact ⟨rfl, iff_of_false Bool.false_ne_true (by omega), iff_of_true rfl (by omega)⟩
    · rw [Nat.compare_eq_eq.2 heq]
      exact ⟨rfl, iff_of_true rfl (by omega), iff_of_false Bool.false_ne_true (by omega)⟩
    · rw [Nat.compare_eq_gt.2 hmore]
      exact ⟨rfl, iff_of_true rfl (by omega), iff_of_true rfl (by omega)⟩

theorem log2_mul_two_pow_div {m d : Nat} (hd : 0 < d) (h : 0 < m / d) (j : Nat) :
    (m * 2 ^ j / d).log2 = (m / d).log2 + j := by
  have hpos := Nat.two_pow_pos j
  have hlower : m / d * 2 ^ j ≤ m * 2 ^ j / d := by
    rw [Nat.le_div_iff_mul_le hd, Nat.mul_right_comm]
    exact Nat.mul_le_mul_right _ (Nat.div_mul_le_self m d)
  have hupper : m * 2 ^ j / d < 2 ^ ((m / d).log2 + 1) * 2 ^ j := by
    have hlt : m / d < 2 ^ ((m / d).log2 + 1) := Nat.lt_log2_self
    rw [Nat.div_lt_iff_lt_mul hd] at hlt ⊢
    rw [Nat.mul_right_comm]
    exact Nat.mul_lt_mul_of_pos_right hlt hpos
  rw [Nat.log2_eq_iff (by have := Nat.mul_pos h hpos; omega), Nat.add_right_comm, Nat.pow_add,
    Nat.pow_add]
  exact ⟨(Nat.mul_le_mul_right _ (Nat.log2_self_le (Nat.ne_of_gt h))).trans hlower, hupper⟩

/-- The excess bits of a quotient that is doubled some times and halved some times. -/
theorem excess_of_ratio {m d a b num den : Nat} (hd : 0 < d) (hden : 0 < den)
    (hratio : num * (d * 2 ^ b) = m * 2 ^ a * den) (hbits : a ≤ b ∨ 2 ^ 52 ≤ m / d) :
    max (((m / d).log2 : Int) - 52 + (a - b)) 0 = excess (num / den) := by
  have hpos := Nat.mul_pos hd (Nat.two_pow_pos b)
  have hquotient : num / den = m * 2 ^ a / (d * 2 ^ b) := by
    rw [← Nat.mul_div_mul_left num den hpos, Nat.mul_comm _ num, hratio, Nat.mul_div_mul_right _ _ hden]
  rw [hquotient, excess]
  rcases Nat.le_total a b with hle | hge
  · obtain ⟨j, rfl⟩ := Nat.exists_eq_add_of_le hle
    have hhalved : m * 2 ^ a / (d * 2 ^ (a + j)) = m / d / 2 ^ j := by
      rw [Nat.pow_add, Nat.mul_left_comm, Nat.mul_comm m, Nat.mul_div_mul_left _ _ (Nat.two_pow_pos a),
        Nat.div_div_eq_div_mul]
    rw [hhalved, Nat.log2_eq_log_two, Nat.log2_eq_log_two, Nat.log_div_base_pow]
    omega
  · obtain ⟨j, rfl⟩ := Nat.exists_eq_add_of_le hge
    have hdoubled : m * 2 ^ (b + j) / (d * 2 ^ b) = m * 2 ^ j / d := by
      rw [Nat.pow_add, Nat.mul_left_comm, Nat.mul_comm d, Nat.mul_div_mul_left _ _ (Nat.two_pow_pos b)]
    rw [hdoubled]
    rcases Nat.eq_zero_or_pos j with rfl | hj
    · rw [Nat.pow_zero, Nat.mul_one]
      omega
    · have hlarge : 2 ^ 52 ≤ m / d := by omega
      have hlog := (Nat.le_log2 (by omega)).2 hlarge
      rw [log2_mul_two_pow_div hd (by omega)]
      omega

/-- What is packed when the quotient of two mantissas is rounded. -/
theorem ofModel_pack_quotient (negative : Bool) {m d a b num den : Nat} (hd : 0 < d) (hden : 0 < den)
    (hratio : num * (d * 2 ^ b) = m * 2 ^ a * den) (hbits : a ≤ b ∨ 2 ^ 52 ≤ m / d) :
    Float.ofModel (Float.Model.pack (roundWithAccuracy Format.binary64 (signOf negative) (m / d)
      ((a : Int) - b - 1074) (accuracyOfFraction (m % d) d))) = ofRatio negative num den := by
  have hexcess := excess_of_ratio hd hden hratio hbits
  have hlog : a ≤ b ∨ 52 ≤ (m / d).log2 := hbits.imp_right fun h => (Nat.le_log2 (by omega)).2 h
  obtain ⟨hle, hk⟩ := roundHalfEven_excess num den
  rw [ofRatio, nearestOrdinal_eq]
  generalize excess (num / den) = e at *
  have hrounded : (ExtendedMantissa.ofMantissaAndAccuracy (m / d) (accuracyOfFraction (m % d) d) >>>
      (e + b - a)).roundedMantissa = roundHalfEven num (den * 2 ^ e) := by
    have hpos := Nat.mul_pos hd (Nat.two_pow_pos (e + b - a))
    rw [((represents_accuracyOfFraction m hd).shiftRight hd _).roundedMantissa hpos]
    refine roundHalfEven_congr hpos (Nat.mul_pos hden (Nat.two_pow_pos e)) ?_
    have hshift : 2 ^ (e + b - a) * 2 ^ a = 2 ^ e * 2 ^ b := by
      rw [← Nat.pow_add, ← Nat.pow_add]
      congr 1
      omega
    apply Nat.eq_of_mul_eq_mul_right (Nat.two_pow_pos a)
    calc m * (den * 2 ^ e) * 2 ^ a = m * 2 ^ a * den * 2 ^ e := by ring
      _ = num * (d * 2 ^ b) * 2 ^ e := by rw [hratio]
      _ = num * d * (2 ^ e * 2 ^ b) := by ring
      _ = num * (d * 2 ^ (e + b - a)) * 2 ^ a := by rw [← hshift]; ring
  rw [← hrounded] at hle hk ⊢
  refine ofModel_pack_roundWithAccuracy negative ?_ hle hk
  rw [shiftToTargetExponent, targetExponent_eq, shiftToExponent]
  have htarget : max (((m / d).log2 : Int) - 52 + (a - b - 1074)) (-1074) = e - 1074 := by omega
  have hamount : ((e : Int) - 1074 - (a - b - 1074)).toNat = e + b - a := by omega
  rw [htarget, hamount, Prod.mk.injEq]
  exact ⟨rfl, by omega⟩

/-! ## Dividing -/

/-- The mantissa of the dividend is doubled until the quotient has 53 bits at least, if it may have so
many. -/
theorem exists_divCore_eq (k k' : Nat) {q q' : Nat} (hpos : 0 < q) (hpos' : 0 < q') (hq : q < 2 ^ 53) :
    ∃ j, divCore Format.binary64 q ((k : Int) - 1074) q' ((k' : Int) - 1074) =
        (q * 2 ^ j / q', ((k + unitExponent : Nat) : Int) - (k' + j : Nat) - 1074,
          accuracyOfFraction (q * 2 ^ j % q') q') ∧
      (k + unitExponent ≤ k' + j ∨ 2 ^ 52 ≤ q * 2 ^ j / q') := by
  have htarget : Format.binary64.targetExponent (Float.Model.totalExponent q ((k : Int) - 1074) -
      Float.Model.totalExponent q' ((k' : Int) - 1074)) =
        max ((q.log2 : Int) - q'.log2 + (k - k') - 53) (-1074) := by
    show max ((q.log2 : Int) + 1 + (k - 1074) - (q'.log2 + 1 + (k' - 1074)) - 53) (-1074) = _
    omega
  have hlog := log2_le_of_lt hq
  have hunit : unitExponent = 1074 := rfl
  obtain ⟨j, hj⟩ : ∃ j : Nat, min ((k : Int) - 1074 - (k' - 1074))
      (max ((q.log2 : Int) - q'.log2 + (k - k') - 53) (-1074)) = k - k' - j :=
    ⟨((k : Int) - k' - min ((k : Int) - 1074 - (k' - 1074))
      (max ((q.log2 : Int) - q'.log2 + (k - k') - 53) (-1074))).toNat, by omega⟩
  refine ⟨j, ?_, ?_⟩
  · have hamount : ((k : Int) - 1074 - (k' - 1074) - (k - k' - j)).toNat = j := by omega
    rw [divCore, htarget, hj]
    simp only [hamount, Nat.shiftLeft_eq, Prod.mk.injEq, true_and, and_true]
    omega
  · rcases Nat.lt_or_ge (k' + j) (k + unitExponent) with hmore | hle
    · right
      have hdoubled : j + q.log2 = 53 + q'.log2 := by omega
      have hlower := Nat.log2_self_le (Nat.ne_of_gt hpos)
      have hupper : q' < 2 ^ (q'.log2 + 1) := Nat.lt_log2_self
      rw [Nat.le_div_iff_mul_le hpos']
      calc 2 ^ 52 * q' ≤ 2 ^ 52 * 2 ^ (q'.log2 + 1) := Nat.mul_le_mul_left _ (Nat.le_of_lt hupper)
        _ = 2 ^ (j + q.log2) := by rw [hdoubled, ← Nat.pow_add]; congr 1; omega
        _ = 2 ^ q.log2 * 2 ^ j := by rw [Nat.add_comm, Nat.pow_add]
        _ ≤ q * 2 ^ j := Nat.mul_le_mul_right _ hlower
    · exact .inl hle

theorem ofModel_pack_div (negative negative' : Bool) {k q k' q' : Nat} (hpos : 0 < q) (hpos' : 0 < q')
    (hq : q < 2 ^ 53) :
    Float.ofModel (Float.Model.pack (UnpackedFloat.div Format.binary64
      (.finite (signOf negative) q ((k : Int) - 1074) hpos)
      (.finite (signOf negative') q' ((k' : Int) - 1074) hpos'))) =
        ofRatio (negative != negative') (q * 2 ^ k * unitsOfOne) (q' * 2 ^ k') := by
  obtain ⟨j, hcore, hbits⟩ := exists_divCore_eq k k' hpos hpos' hq
  have hratio : q * 2 ^ k * unitsOfOne * (q' * 2 ^ (k' + j)) =
      q * 2 ^ j * 2 ^ (k + unitExponent) * (q' * 2 ^ k') := by
    rw [unitsOfOne_eq]
    ring
  rw [UnpackedFloat.div]
  simp only [hcore, signOf_div_signOf]
  exact ofModel_pack_quotient _ hpos' (Nat.mul_pos hpos' (Nat.two_pow_pos k')) hratio hbits

/-- A quotient is the number nearest to the quotient of the counts. -/
theorem div_eq {x y : Float} (hx : x.isFinite = true) (hy : y.isFinite = true)
    (hzero : signedUnits y ≠ 0) :
    x / y = ofRatio (isNegative x != isNegative y) (units x * unitsOfOne) (units y) := by
  have hdiv : x / y = Float.ofModel (Float.Model.pack
    (UnpackedFloat.div Format.binary64 x.toModel.unpack y.toModel.unpack)) := rfl
  have hunits : ∀ {z : Float} {n : Nat}, signedUnits z = (signOf (isNegative z)).apply n → units z = n := by
    intro z n hz
    rw [← natAbs_signedUnits, hz, natAbs_apply]
  obtain ⟨k', q', hpos', -, -, hsy, huy⟩ := (unpack_cases hy).resolve_left fun h => hzero h.1
  rcases unpack_cases hx with ⟨hsx, hux⟩ | ⟨k, q, hpos, hq, -, hsx, hux⟩
  · rw [hdiv, hux, huy, ← natAbs_signedUnits, hsx, Int.natAbs_zero, Nat.zero_mul, ofRatio,
      nearestOrdinal_zero]
    show Float.ofModel (Float.Model.pack (.zero (signOf (isNegative x) / signOf (isNegative y)))) = _
    rw [signOf_div_signOf]
    exact ofModel_pack_unpacked _ (Nat.zero_le _)
  · rw [hdiv, hux, huy, ofModel_pack_div _ _ hpos hpos' hq, hunits hsx, hunits hsy]

/-- The quotient by a number that is not less than one is in the range of the numbers. -/
theorem isFinite_div {x y : Float} (hx : x.isFinite = true) (hy : y.isFinite = true)
    (hone : unitsOfOne ≤ units y) : (x / y).isFinite = true := by
  have hpos : 0 < units y := Nat.lt_of_lt_of_le unitsOfOne_pos hone
  have hzero : signedUnits y ≠ 0 := by rw [← Int.natAbs_pos, natAbs_signedUnits]; exact hpos
  rw [div_eq hx hy hzero, isFinite_iff, ofRatio, ordinal_ofOrdinal _ (nearestOrdinal_le _ _)]
  refine (nearestOrdinal_le_of_le hpos Nat.one_pos ?_).trans_lt (nearestOrdinal_units hx).1
  rw [Nat.mul_one]
  exact Nat.mul_le_mul_left _ hone

/-- The sign of a number as a factor. -/
def signFactor (negative : Bool) : ℚ :=
  if negative then -1 else 1

theorem abs_signFactor (negative : Bool) : |signFactor negative| = 1 := by
  cases negative
  · exact abs_one
  · exact (abs_neg 1).trans abs_one

theorem value_eq (x : Float) : value x = signFactor (isNegative x) * (units x / unitsOfOne) := by
  rw [value, signedUnits, signFactor]
  cases isNegative x
  · rw [apply_signOf_false, if_neg Bool.false_ne_true, one_mul, Int.cast_natCast]
  · rw [apply_signOf_true, if_pos rfl, Int.cast_neg, Int.cast_natCast, neg_div, neg_one_mul]

theorem signFactor_div (negative negative' : Bool) :
    signFactor negative / signFactor negative' = signFactor (negative != negative') := by
  cases negative <;> cases negative' <;> norm_num [signFactor]

/-- A quotient is off by a part in `2^53` of the exact one, or by half a unit. -/
theorem abs_value_div_sub_le {x y : Float} (hx : x.isFinite = true) (hy : y.isFinite = true)
    (hzero : signedUnits y ≠ 0) (hfinite : (x / y).isFinite = true) :
    |value (x / y) - value x / value y| ≤
      (|value x / value y| / 2 ^ 52 + 1 / unitsOfOne) / 2 := by
  have hone : (0 : ℚ) < unitsOfOne := Nat.cast_pos.2 unitsOfOne_pos
  have hpos : 0 < units y := by rwa [← natAbs_signedUnits, Int.natAbs_pos]
  have hle := nearestOrdinal_le (units x * unitsOfOne) (units y)
  rw [div_eq hx hy hzero, isFinite_iff, ofRatio, ordinal_ofOrdinal _ hle] at hfinite
  have herror := abs_nearest_sub_le (units x * unitsOfOne) hpos hfinite
  have hquotient : value (x / y) = signFactor (isNegative x != isNegative y) *
      (unitsOfOrdinal (nearestOrdinal (units x * unitsOfOne) (units y)) / unitsOfOne) := by
    rw [value_eq, units, div_eq hx hy hzero, ofRatio, ordinal_ofOrdinal _ hle, isNegative_ofOrdinal _ hle]
  have hexact : value x / value y = signFactor (isNegative x != isNegative y) *
      ((units x * unitsOfOne : Nat) / units y / unitsOfOne) := by
    have hne : (units y : ℚ) ≠ 0 := Nat.cast_ne_zero.2 (Nat.ne_of_gt hpos)
    rw [value_eq x, value_eq y, mul_div_mul_comm, signFactor_div]
    push_cast
    field_simp
  generalize unitsOfOrdinal (nearestOrdinal (units x * unitsOfOne) (units y)) = u at *
  have hnonneg : (0 : ℚ) ≤ (units x * unitsOfOne : Nat) / units y :=
    div_nonneg (Nat.cast_nonneg _) (Nat.cast_nonneg _)
  generalize ((units x * unitsOfOne : Nat) : ℚ) / units y = r at *
  rw [hquotient, hexact, ← mul_sub, abs_mul, abs_mul, abs_signFactor, one_mul, one_mul, ← sub_div,
    abs_div, abs_of_pos hone, abs_of_nonneg (div_nonneg hnonneg hone.le)]
  calc |(u : ℚ) - r| / unitsOfOne ≤ (r / 2 ^ 52 + 1) / 2 / unitsOfOne :=
        div_le_div_of_nonneg_right herror hone.le
    _ = (r / unitsOfOne / 2 ^ 52 + 1 / unitsOfOne) / 2 := by ring

end DeskCalculator.Binary64
