/-!
# Magnitudes counted in units

Every finite binary64 number is a whole number of units of `2^-1074`. `units` gives that count and
`ofRatio` goes back: it finds the number nearest to a quotient of counts, a tie going to the number
with the even last bit. All the exact arithmetic of the library (reading and writing decimals,
rounding to integers, remainders) is done on these counts.
-/

namespace DeskCalculator.Binary64

/-! ## From numbers to counts -/

/-- The rank of the magnitude of `x` in the increasing list of magnitudes: `0` for the zeros, then
one more for each next magnitude, infinity last, NaN after it. -/
def ordinal (x : Float) : Nat :=
  x.toBits.toNat % Nat.pow 2 63

/-- Whether the sign bit of `x` is set. -/
def isNegative (x : Float) : Bool :=
  Nat.pow 2 63 ≤ x.toBits.toNat

/-- The rank of infinity. -/
def infinityOrdinal : Nat :=
  2047 * Nat.pow 2 52

/-- The count of the magnitude of rank `n`. -/
def unitsOfOrdinal (n : Nat) : Nat :=
  if n < Nat.pow 2 52 then n
  else (Nat.pow 2 52 + n % Nat.pow 2 52) * Nat.pow 2 (n / Nat.pow 2 52 - 1)

/-- The magnitude of a finite number, counted in units. -/
def units (x : Float) : Nat :=
  unitsOfOrdinal (ordinal x)

/-- A unit is this many times halved from one. -/
def unitExponent : Nat :=
  1074

/-- The count of the number one. -/
def unitsOfOne : Nat :=
  Nat.pow 2 unitExponent

/-! ## From counts to numbers -/

/-- The integer nearest to `num / den`, a tie going to the even one. -/
def roundHalfEven (num den : Nat) : Nat :=
  let q := num / den
  let r := num % den
  if 2 * r < den ∨ 2 * r = den ∧ q % 2 = 0 then q else q + 1

/-- The rank of the magnitude nearest to `num / den` units. The significand keeps 53 bits, fewer
below `2^-1022`; what is rounded past the largest finite number is infinity. -/
def nearestOrdinal (num den : Nat) : Nat :=
  let shift := (num / den).log2 - 52
  min (shift * Nat.pow 2 52 + roundHalfEven num (den * Nat.pow 2 shift)) infinityOrdinal

/-- The number of a sign and a rank. -/
def ofOrdinal (negative : Bool) (n : Nat) : Float :=
  Float.ofBits (UInt64.ofNat (if negative then Nat.pow 2 63 + n else n))

/-- The number nearest to `num / den` units, with the given sign. -/
def ofRatio (negative : Bool) (num den : Nat) : Float :=
  ofOrdinal negative (nearestOrdinal num den)

/-- The number nearest to a whole number of units, with the given sign. -/
def ofUnits (negative : Bool) (n : Nat) : Float :=
  ofRatio negative n 1

theorem roundHalfEven_mul_self (q : Nat) {den : Nat} (h : 0 < den) :
    roundHalfEven (q * den) den = q := by
  unfold roundHalfEven
  rw [Nat.mul_mod_left, Nat.mul_div_cancel q h]
  simp only
  rw [if_pos (Or.inl (by omega))]

theorem roundHalfEven_mul_left {k : Nat} (h : 0 < k) (num den : Nat) :
    roundHalfEven (k * num) (k * den) = roundHalfEven num den := by
  unfold roundHalfEven
  rw [Nat.mul_div_mul_left num den h, Nat.mul_mod_mul_left]
  simp only
  have h₁ : 2 * (k * (num % den)) < k * den ↔ 2 * (num % den) < den := by
    rw [Nat.mul_left_comm]
    exact Nat.mul_lt_mul_left h
  have h₂ : 2 * (k * (num % den)) = k * den ↔ 2 * (num % den) = den := by
    rw [Nat.mul_left_comm]
    exact Nat.mul_right_inj (Nat.ne_of_gt h)
  simp only [h₁, h₂]

/-- Only the value of a quotient matters. -/
theorem nearestOrdinal_mul_left {k : Nat} (h : 0 < k) (num den : Nat) :
    nearestOrdinal (k * num) (k * den) = nearestOrdinal num den := by
  unfold nearestOrdinal
  rw [Nat.mul_div_mul_left num den h]
  simp only
  rw [Nat.mul_assoc, roundHalfEven_mul_left h]

/-- A magnitude is nearest to itself. -/
theorem nearestOrdinal_unitsOfOrdinal {n : Nat} (h : n ≤ infinityOrdinal) :
    nearestOrdinal (unitsOfOrdinal n) 1 = n := by
  unfold nearestOrdinal unitsOfOrdinal
  simp only [Nat.pow_eq]
  rw [Nat.div_one]
  by_cases hn : n < 2 ^ 52
  · have hlog : n.log2 - 52 = 0 := by
      by_cases h0 : n = 0
      · subst h0; rfl
      · have := (Nat.log2_lt h0).mpr hn
        omega
    have hround := @roundHalfEven_mul_self n 1 (by omega)
    rw [Nat.mul_one] at hround
    rw [if_pos hn]
    simp only [hlog]
    rw [Nat.pow_zero, Nat.mul_one, hround, Nat.zero_mul, Nat.zero_add, Nat.min_eq_left h]
  · have hlo : 2 ^ 52 ≤ 2 ^ 52 + n % 2 ^ 52 := Nat.le_add_right _ _
    have hhi : 2 ^ 52 + n % 2 ^ 52 < 2 ^ 53 := by omega
    generalize hm : 2 ^ 52 + n % 2 ^ 52 = m at hlo hhi
    generalize hk : n / 2 ^ 52 - 1 = k
    have hpos : 0 < 2 ^ k := Nat.two_pow_pos k
    have hlog : (m * 2 ^ k).log2 - 52 = k := by
      have hne : m ≠ 0 := by omega
      have : (m * 2 ^ k).log2 = 52 + k := by
        rw [Nat.log2_eq_iff (by exact Nat.mul_ne_zero hne (Nat.ne_of_gt hpos))]
        constructor
        · rw [Nat.pow_add]; exact Nat.mul_le_mul_right _ hlo
        · rw [show 52 + k + 1 = 53 + k by omega, Nat.pow_add]
          exact Nat.mul_lt_mul_of_pos_right hhi hpos
      omega
    rw [if_neg hn]
    simp only [hlog]
    rw [Nat.one_mul, roundHalfEven_mul_self m hpos, show k * 2 ^ 52 + m = n by omega,
      Nat.min_eq_left h]

/-! ## Particular numbers -/

/-- The quiet NaN. -/
def nan : Float :=
  Float.ofBits 0x7ff8000000000000

/-- The number nearest to the ratio of a circle to its diameter. -/
def pi : Float :=
  Float.ofBits 0x400921fb54442d18

/-- The number nearest to half of that ratio. -/
def halfPi : Float :=
  Float.ofBits 0x3ff921fb54442d18

/-- The number nearest to the base of natural logarithms. -/
def euler : Float :=
  Float.ofBits 0x4005bf0a8b145769

end DeskCalculator.Binary64
