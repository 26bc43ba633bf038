import DeskCalculator.Proofs.Words

/-!
# The nearest number

A rank is a significand of at most 53 bits and how often it is doubled, and its count is what they say
(`unitsOfOrdinal_add`). So the counts rise with the ranks, and the number that is nearest to a quotient does
not fall when the numerator rises (`nearestOrdinal_mono`); it is the count itself wherever the significand has
the bits for it (`unitsOfOrdinal_nearestOrdinal`). The machine finds the same number by shifting a
significand to the right, with one bit for the half behind it and one for what is left
(`ofModel_pack_round`).
-/

namespace DeskCalculator.Binary64

open Float.Model (Format UnpackedFloat)
open Float.Model.UnpackedFloat

/-! ## Counts of ranks -/

/-- The count of a significand that is doubled some times. A significand of 53 bits is one of 52 that is
doubled once more. -/
theorem unitsOfOrdinal_add {k q : Nat} (hq : q ≤ 2 ^ 53) (hk : k = 0 ∨ 2 ^ 52 ≤ q) :
    unitsOfOrdinal (k * 2 ^ 52 + q) = q * 2 ^ k := by
  rw [unitsOfOrdinal]
  simp only [Nat.pow_eq]
  by_cases hsmall : q < 2 ^ 52
  · obtain rfl : k = 0 := by omega
    rw [if_pos (by omega), Nat.zero_mul, Nat.zero_add, Nat.pow_zero, Nat.mul_one]
  rw [if_neg (by omega)]
  rcases Nat.lt_or_eq_of_le hq with hlt | rfl
  · have hdiv : (k * 2 ^ 52 + q) / 2 ^ 52 - 1 = k := by omega
    have hmod : 2 ^ 52 + (k * 2 ^ 52 + q) % 2 ^ 52 = q := by omega
    rw [hdiv, hmod]
  · have hdiv : (k * 2 ^ 52 + 2 ^ 53) / 2 ^ 52 - 1 = k + 1 := by omega
    have hmod : 2 ^ 52 + (k * 2 ^ 52 + 2 ^ 53) % 2 ^ 52 = 2 ^ 52 := by omega
    rw [hdiv, hmod, Nat.pow_succ 2 k]
    omega

theorem exists_significand (n : Nat) :
    ∃ k q, q < 2 ^ 53 ∧ (k = 0 ∨ 2 ^ 52 ≤ q) ∧ n = k * 2 ^ 52 + q :=
  ⟨n / 2 ^ 52 - 1, n - (n / 2 ^ 52 - 1) * 2 ^ 52, by omega, by omega, by omega⟩

theorem strictMono_unitsOfOrdinal : StrictMono unitsOfOrdinal := by
  refine strictMono_nat_of_lt_succ fun n => ?_
  obtain ⟨k, q, hq, hk, rfl⟩ := exists_significand n
  rw [Nat.add_assoc, unitsOfOrdinal_add (Nat.le_of_lt hq) hk, unitsOfOrdinal_add hq (by omega)]
  exact Nat.mul_lt_mul_of_pos_right (Nat.lt_succ_self q) (Nat.two_pow_pos k)

/-! ## The nearest rank -/

theorem roundHalfEven_mono {num num' : Nat} (h : num ≤ num') (den : Nat) :
    roundHalfEven num den ≤ roundHalfEven num' den := by
  have hquotient := Nat.div_le_div_right (c := den) h
  rw [roundHalfEven, roundHalfEven]
  rcases Nat.lt_or_eq_of_le hquotient with hlt | heq
  · split <;> split <;> omega
  · have hrest : num % den ≤ num' % den := by
      have hnum := Nat.div_add_mod num den
      have hnum' := Nat.div_add_mod num' den
      rw [heq] at hnum
      omega
    rw [heq]
    split <;> split <;> omega

/-- The bits of a count that a significand has no place for. -/
def excess (n : Nat) : Nat :=
  n.log2 - 52

theorem nearestOrdinal_eq (num den : Nat) : nearestOrdinal num den =
    min (excess (num / den) * 2 ^ 52 + roundHalfEven num (den * 2 ^ excess (num / den)))
      infinityOrdinal := by
  rw [nearestOrdinal]
  simp only [Nat.pow_eq]
  rfl

theorem nearestOrdinal_one (n : Nat) : nearestOrdinal n 1 =
    min (excess n * 2 ^ 52 + roundHalfEven n (2 ^ excess n)) infinityOrdinal := by
  rw [nearestOrdinal_eq, Nat.div_one, Nat.one_mul]

theorem lt_two_pow_excess (n : Nat) : n < 2 ^ (53 + excess n) := by
  have hlog : n < 2 ^ (n.log2 + 1) := Nat.lt_log2_self
  exact hlog.trans_le (Nat.pow_le_pow_right (by decide) (by rw [excess]; omega))

theorem two_pow_excess_le {n : Nat} (h : excess n ≠ 0) : 2 ^ (52 + excess n) ≤ n := by
  have hexcess : excess n = n.log2 - 52 := rfl
  have hne : n ≠ 0 := by
    rintro rfl
    exact h rfl
  exact (Nat.le_log2 hne).1 (by omega)

theorem roundHalfEven_le (num den : Nat) :
    num / den ≤ roundHalfEven num den ∧ roundHalfEven num den ≤ num / den + 1 := by
  rw [roundHalfEven]
  split <;> omega

/-- What is left of a quotient without its excess bits is a significand, or the power of two behind the
greatest. -/
theorem roundHalfEven_excess (num den : Nat) :
    roundHalfEven num (den * 2 ^ excess (num / den)) ≤ 2 ^ 53 ∧
      (excess (num / den) = 0 ∨ 2 ^ 52 ≤ roundHalfEven num (den * 2 ^ excess (num / den))) := by
  have hpos := Nat.two_pow_pos (excess (num / den))
  obtain ⟨hlower, hupper⟩ := roundHalfEven_le num (den * 2 ^ excess (num / den))
  rw [← Nat.div_div_eq_div_mul] at hlower hupper
  have hlt : num / den / 2 ^ excess (num / den) < 2 ^ 53 := by
    rw [Nat.div_lt_iff_lt_mul hpos, ← Nat.pow_add]
    exact lt_two_pow_excess (num / den)
  refine ⟨by omega, or_iff_not_imp_left.2 fun hne => le_trans ?_ hlower⟩
  rw [Nat.le_div_iff_mul_le hpos, ← Nat.pow_add]
  exact two_pow_excess_le hne

/-- The number nearest to a quotient does not fall when the numerator rises. -/
theorem nearestOrdinal_mono {num num' den : Nat} (h : num ≤ num') :
    nearestOrdinal num den ≤ nearestOrdinal num' den := by
  rw [nearestOrdinal_eq, nearestOrdinal_eq]
  refine min_le_min_right _ ?_
  have hexcess : excess (num / den) ≤ excess (num' / den) := by
    rw [excess, excess, Nat.log2_eq_log_two, Nat.log2_eq_log_two]
    exact Nat.sub_le_sub_right (Nat.log_mono_right (Nat.div_le_div_right h)) 52
  obtain ⟨hle, -⟩ := roundHalfEven_excess num den
  obtain ⟨-, hle'⟩ := roundHalfEven_excess num' den
  rcases Nat.lt_or_eq_of_le hexcess with hlt | heq
  · -- the power of two behind the greatest significand is the least one that is doubled once more
    omega
  · have hround := roundHalfEven_mono h (den * 2 ^ excess (num / den))
    rw [← heq]
    omega

/-- A count whose excess bits are zero is that of a number. -/
theorem unitsOfOrdinal_nearestOrdinal {n k : Nat} (hdvd : 2 ^ k ∣ n) (hlt : n < 2 ^ (53 + k))
    (hk : k ≤ 2045) :
    nearestOrdinal n 1 < infinityOrdinal ∧ unitsOfOrdinal (nearestOrdinal n 1) = n := by
  have hexcess : excess n ≤ k := by
    by_contra hgt
    have hle := two_pow_excess_le (n := n) (by omega)
    have hpow := (Nat.pow_lt_pow_iff_right (a := 2) (by decide)).1 (hle.trans_lt hlt)
    omega
  obtain ⟨q, hq⟩ := (Nat.pow_dvd_pow 2 hexcess).trans hdvd
  have hbound := lt_two_pow_excess n
  have hround := roundHalfEven_mul_self q (Nat.two_pow_pos (excess n))
  rw [Nat.mul_comm, ← hq] at hround
  obtain ⟨-, hsignificand⟩ := roundHalfEven_excess n 1
  rw [Nat.div_one, Nat.one_mul, hround] at hsignificand
  rw [nearestOrdinal_one, hround]
  generalize excess n = e at *
  have hqlt : q < 2 ^ 53 := by
    rw [hq, Nat.add_comm, Nat.pow_add] at hbound
    exact Nat.lt_of_mul_lt_mul_left hbound
  have hinfinity : infinityOrdinal = 2047 * 2 ^ 52 := rfl
  have hfinite : e * 2 ^ 52 + q < infinityOrdinal := by omega
  rw [Nat.min_eq_left (Nat.le_of_lt hfinite), unitsOfOrdinal_add (Nat.le_of_lt hqlt) hsignificand, hq,
    Nat.mul_comm q]
  exact ⟨hfinite, rfl⟩

/-! ## Words of significands -/

theorem unpacked_of_significand (negative : Bool) {k q : Nat} (hq : q < 2 ^ 53) (hpos : 0 < q)
    (hk : k = 0 ∨ 2 ^ 52 ≤ q) (hfinite : k * 2 ^ 52 + q < infinityOrdinal) :
    unpacked negative (k * 2 ^ 52 + q) = .finite (signOf negative) q ((k : Int) - 1074) hpos := by
  rw [unpacked, if_neg (by omega), if_neg (by omega), dif_neg (by omega)]
  split
  · next hsmall =>
    obtain rfl : k = 0 := by omega
    simp
  · next hlarge =>
    have hmod : 2 ^ 52 + (k * 2 ^ 52 + q) % 2 ^ 52 = q := by omega
    have hdiv : (((k * 2 ^ 52 + q) / 2 ^ 52 : Nat) : Int) - 1075 = k - 1074 := by omega
    simp only [hmod, hdiv]

theorem ofModel_pack_unpacked (negative : Bool) {n : Nat} (h : n ≤ infinityOrdinal) :
    Float.ofModel (Float.Model.pack (unpacked negative n)) = ofOrdinal negative n := by
  have hlt : n < 2 ^ 63 := Nat.lt_of_le_of_lt h (by decide)
  rw [← Float.toBits_inj, ← UInt64.toBitVec_inj, toBits_ofOrdinal _ h]
  show UnpackedFloat.pack Format.binary64 (unpacked negative n) = _
  rw [← unpack_word _ hlt, pack_unpack, if_neg (not_isNaNBits_word _ h)]

/-- What a significand is packed to: a number, or infinity where it is doubled too often. -/
theorem ofModel_pack_significand (negative : Bool) {k q : Nat} (hq : q < 2 ^ 53) (hpos : 0 < q)
    (hk : k = 0 ∨ 2 ^ 52 ≤ q) :
    Float.ofModel (Float.Model.pack (.finite (signOf negative) q ((k : Int) - 1074) hpos)) =
      ofOrdinal negative (min (k * 2 ^ 52 + q) infinityOrdinal) := by
  rcases Nat.lt_or_ge (k * 2 ^ 52 + q) infinityOrdinal with hfinite | hinfinite
  · rw [Nat.min_eq_left (Nat.le_of_lt hfinite), ← unpacked_of_significand negative hq hpos hk hfinite,
      ofModel_pack_unpacked _ (Nat.le_of_lt hfinite)]
  · have hinfinity : infinityOrdinal = 2047 * 2 ^ 52 := rfl
    have hbits : UnpackedFloat.pack Format.binary64 (.finite (signOf negative) q ((k : Int) - 1074) hpos) =
        UnpackedFloat.pack Format.binary64 (.infinity (signOf negative)) := by
      have hbias : ((k : Int) - 1074 + Format.binary64.exponentBias + (52 : Nat)).toNat = k + 1 := by
        show ((k : Int) - 1074 + (1023 : Nat) + (52 : Nat)).toNat = k + 1
        omega
      have hlarge : 2 ^ Format.binary64.exponentBits ≤
          ((k : Int) - 1074 + Format.binary64.exponentBias + (52 : Nat)).toNat + 1 := by
        rw [hbias]
        show 2 ^ 11 ≤ k + 1 + 1
        omega
      exact if_pos hlarge
    have hpack : Float.Model.pack (.finite (signOf negative) q ((k : Int) - 1074) hpos) =
        Float.Model.pack (.infinity (signOf negative)) := by
      rw [Float.Model.pack, Float.Model.mk.injEq, hbits]
      rfl
    rw [hpack, pack_infinity, Nat.min_eq_right hinfinite]

/-! ## Shifting to the right -/

/-- What a mantissa and the two bits behind it tell of a quotient: its integer part, whether its fraction is
a half at least, and whether the fraction is neither zero nor a half. -/
structure Represents (em : ExtendedMantissa) (num den : Nat) : Prop where
  mantissa_eq : em.mantissa = num / den
  roundBit_iff : em.roundBit = true ↔ den ≤ 2 * (num % den)
  stickyBit_iff : em.stickyBit = true ↔ num % den ≠ 0 ∧ 2 * (num % den) ≠ den

namespace Represents

variable {em : ExtendedMantissa} {num den : Nat}

theorem exact (m : Nat) : Represents (.ofMantissaAndAccuracy m .exact) m 1 where
  mantissa_eq := (Nat.div_one m).symm
  roundBit_iff := by
    rw [Nat.mod_one]
    exact iff_of_false Bool.false_ne_true (by decide)
  stickyBit_iff := by
    rw [Nat.mod_one]
    exact iff_of_false Bool.false_ne_true fun h => h.1 rfl

/-- The two bits are all that rounding needs. -/
theorem roundedMantissa (h : Represents em num den) (hden : 0 < den) :
    em.roundedMantissa = roundHalfEven num den := by
  obtain ⟨m, roundBit, stickyBit⟩ := em
  obtain ⟨rfl, hround, hsticky⟩ := h
  rw [roundHalfEven]
  cases roundBit <;> cases stickyBit <;>
    simp only [Bool.false_eq_true, false_iff, true_iff] at hround hsticky <;>
    simp only [ExtendedMantissa.roundedMantissa, ExtendedMantissa.accuracy, Accuracy.roundToNearestEven]
  · rw [if_pos (.inl (by omega))]
  · rw [if_pos (.inl (by omega))]
  · split <;> omega
  · rw [if_neg (by omega)]

theorem shiftRightOne (h : Represents em num den) (hden : 0 < den) :
    Represents em.shiftRightOne num (den * 2) := by
  obtain ⟨m, roundBit, stickyBit⟩ := em
  obtain ⟨rfl, hround, hsticky⟩ := h
  have hrest : num % (den * 2) = num % den + den * (num / den % 2) := Nat.mod_mul
  have hlt := Nat.mod_lt num hden
  rcases Nat.mod_two_eq_zero_or_one (num / den) with hbit | hbit
  all_goals
    rw [hbit] at hrest
    refine ⟨Nat.div_div_eq_div_mul num den 2, ?_, ?_⟩
    · show (num / den % 2 != 0) = true ↔ _
      rw [bne_iff_ne, hbit]
      omega
    · show (roundBit || stickyBit) = true ↔ _
      rw [Bool.or_eq_true, hround, hsticky]
      omega

theorem shiftRight (h : Represents em num den) (hden : 0 < den) (n : Nat) :
    Represents (em >>> n) num (den * 2 ^ n) := by
  induction n with
  | zero =>
    rw [Nat.pow_zero, Nat.mul_one]
    exact h
  | succ n ih =>
    rw [Nat.pow_succ, ← Nat.mul_assoc]
    exact ih.shiftRightOne (Nat.mul_pos hden (Nat.two_pow_pos n))

end Represents

/-! ## Rounding -/

theorem targetExponent_eq (m : Nat) (e : Int) :
    Format.binary64.targetExponent (Float.Model.totalExponent m e) = max (m.log2 - 52 + e) (-1074) := by
  show max ((m.log2 : Int) + 1 + e - 53) (-1074) = _
  congr 1
  omega

theorem log2_le_of_lt {q : Nat} (h : q < 2 ^ 53) : q.log2 ≤ 52 := by
  rcases Nat.eq_zero_or_pos q with rfl | hpos
  · decide
  · exact Nat.le_of_lt_succ ((Nat.log2_lt (Nat.ne_of_gt hpos)).2 h)

/-- Shifting a significand once more changes nothing, but the power of two behind the greatest significand is
halved. -/
theorem shiftToTargetExponent_significand {k q : Nat} (hq : q ≤ 2 ^ 53) (hk : k = 0 ∨ 2 ^ 52 ≤ q) :
    shiftToTargetExponent Format.binary64 q ((k : Int) - 1074) .exact =
      if q < 2 ^ 53 then (⟨q, false, false⟩, (k : Int) - 1074)
      else (⟨2 ^ 52, false, false⟩, ((k + 1 : Nat) : Int) - 1074) := by
  rw [shiftToTargetExponent, targetExponent_eq, shiftToExponent]
  split
  · next hlt =>
    have htarget : max ((q.log2 : Int) - 52 + (k - 1074)) (-1074) = k - 1074 := by
      have hbits := log2_le_of_lt hlt
      rcases hk with rfl | hle
      · omega
      · have hle := (Nat.le_log2 (by omega)).2 hle
        omega
    rw [htarget, Int.sub_self]
    show (ExtendedMantissa.mk q false false, (k : Int) - 1074 + (0 : Nat)) = _
    rw [Nat.cast_zero, Int.add_zero]
  · next hge =>
    obtain rfl : q = 2 ^ 53 := by omega
    have hlog : (2 ^ 53 : Nat).log2 = 53 := by decide
    have htarget : max (((53 : Nat) : Int) - 52 + (k - 1074)) (-1074) - (k - 1074) = (1 : Nat) := by omega
    rw [hlog, htarget, Int.toNat_natCast]
    show (ExtendedMantissa.mk (2 ^ 53 / 2) (2 ^ 53 % 2 != 0) false, (k : Int) - 1074 + (1 : Nat)) = _
    rw [Prod.mk.injEq]
    exact ⟨rfl, by omega⟩

/-- What is packed when a mantissa is shifted to a significand and rounded. -/
theorem ofModel_pack_roundWithAccuracy (negative : Bool) {m : Nat} {e : Int} {a : Accuracy}
    {em : ExtendedMantissa} {k : Nat}
    (hshift : shiftToTargetExponent Format.binary64 m e a = (em, (k : Int) - 1074))
    (hle : em.roundedMantissa ≤ 2 ^ 53) (hk : k = 0 ∨ 2 ^ 52 ≤ em.roundedMantissa) :
    Float.ofModel (Float.Model.pack (roundWithAccuracy Format.binary64 (signOf negative) m e a)) =
      ofOrdinal negative (min (k * 2 ^ 52 + em.roundedMantissa) infinityOrdinal) := by
  rw [roundWithAccuracy, hshift]
  simp only [shiftToTargetExponent_significand hle hk]
  generalize em.roundedMantissa = q at *
  rcases Nat.eq_zero_or_pos q with rfl | hpos
  · obtain rfl : k = 0 := by omega
    cases negative <;> rfl
  rcases Nat.lt_or_eq_of_le hle with hlt | rfl
  · simp only [if_pos hlt, dif_neg (Nat.ne_of_gt hpos)]
    exact ofModel_pack_significand negative hlt hpos hk
  · have htwice : k * 2 ^ 52 + 2 ^ 53 = (k + 1) * 2 ^ 52 + 2 ^ 52 := by omega
    have hne : ¬ (2 : Nat) ^ 52 = 0 := by decide
    rw [htwice]
    simp only [if_neg (Nat.lt_irrefl _), dif_neg hne]
    exact ofModel_pack_significand negative (by decide) (by decide) (.inr (Nat.le_refl _))

theorem log2_mul_two_pow {m : Nat} (hm : 0 < m) (j : Nat) : (m * 2 ^ j).log2 = m.log2 + j := by
  have hpos := Nat.two_pow_pos j
  rw [Nat.log2_eq_iff (Nat.ne_of_gt (Nat.mul_pos hm hpos)), Nat.add_right_comm, Nat.pow_add, Nat.pow_add]
  exact ⟨Nat.mul_le_mul_right _ (Nat.log2_self_le (Nat.ne_of_gt hm)),
    Nat.mul_lt_mul_of_pos_right Nat.lt_log2_self hpos⟩

theorem decreaseExponent_eq (m j x : Nat) :
    decreaseExponent m ((j : Int) - 1074) ((x : Int) - 1074) =
      (m * 2 ^ (j - x), (j : Int) - 1074 - (j - x : Nat)) := by
  have hamount : ((j : Int) - 1074 - (x - 1074)).toNat = j - x := by omega
  rw [decreaseExponent, hamount, Nat.shiftLeft_eq]

/-- A mantissa that has been doubled as long as it has bits to spare is then halved as long as it has too
many. -/
theorem shiftToTargetExponent_doubled {m : Nat} (hm : 0 < m) {j x : Nat}
    (htarget : max ((m.log2 : Int) - 52 + (j - 1074)) (-1074) = (x : Int) - 1074) :
    shiftToTargetExponent Format.binary64 (m * 2 ^ (j - x)) ((j : Int) - 1074 - (j - x : Nat)) .exact =
      (ExtendedMantissa.ofMantissaAndAccuracy (m * 2 ^ (j - x)) .exact >>> (x - j), (x : Int) - 1074) := by
  have hsame : ((m.log2 + (j - x) : Nat) : Int) - 52 + ((j : Int) - 1074 - (j - x : Nat)) =
      (m.log2 : Int) - 52 + (j - 1074) := by omega
  have hamount : ((x : Int) - 1074 - (j - 1074 - (j - x : Nat))).toNat = x - j := by omega
  rw [shiftToTargetExponent, targetExponent_eq, log2_mul_two_pow hm, hsame, htarget, shiftToExponent,
    hamount, Prod.mk.injEq]
  exact ⟨rfl, by omega⟩

/-- The mantissa that is left is that of the count without its excess bits. -/
theorem roundedMantissa_doubled (m j x : Nat) :
    (ExtendedMantissa.ofMantissaAndAccuracy (m * 2 ^ (j - x)) .exact >>> (x - j)).roundedMantissa =
      roundHalfEven (m * 2 ^ j) (2 ^ x) := by
  have hj : 2 ^ j = 2 ^ min j x * 2 ^ (j - x) := by rw [← Nat.pow_add]; congr 1; omega
  have hx : 2 ^ x = 2 ^ min j x * (1 * 2 ^ (x - j)) := by rw [Nat.one_mul, ← Nat.pow_add]; congr 1; omega
  rw [((Represents.exact _).shiftRight Nat.one_pos _).roundedMantissa
    (Nat.mul_pos Nat.one_pos (Nat.two_pow_pos _)), hj, hx, Nat.mul_left_comm,
    roundHalfEven_mul_left (Nat.two_pow_pos _)]

/-- A mantissa that is doubled some times is rounded to the number nearest to its count. -/
theorem ofModel_pack_round (negative : Bool) {m : Nat} (hm : 0 < m) (j : Nat) :
    Float.ofModel (Float.Model.pack
      (UnpackedFloat.round Format.binary64 (signOf negative) m ((j : Int) - 1074))) =
        ofUnits negative (m * 2 ^ j) := by
  have hexcess : excess (m * 2 ^ j) = m.log2 + j - 52 := by rw [excess, log2_mul_two_pow hm]
  obtain ⟨hle, hk⟩ := roundHalfEven_excess (m * 2 ^ j) 1
  rw [Nat.div_one, Nat.one_mul] at hle hk
  rw [ofUnits, ofRatio, nearestOrdinal_one]
  generalize excess (m * 2 ^ j) = x at *
  have htarget : max ((m.log2 : Int) - 52 + (j - 1074)) (-1074) = (x : Int) - 1074 := by omega
  rw [← roundedMantissa_doubled] at hle hk ⊢
  rw [UnpackedFloat.round, targetExponent_eq, htarget]
  simp only [decreaseExponent_eq]
  exact ofModel_pack_roundWithAccuracy negative (shiftToTargetExponent_doubled hm htarget) hle hk

end DeskCalculator.Binary64
