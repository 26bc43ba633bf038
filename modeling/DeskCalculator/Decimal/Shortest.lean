import DeskCalculator.Decimal.Basic

/-!
# The shortest decimal

Of the decimals that are read as a given number, the shortest has the fewest digits; of two with as
many digits it is the nearer, and the greater when they are as near.

The search goes through the powers of ten downward. On each grid only the two neighbours of the
number have to be tried: every other decimal of the grid is farther away, so it is read as the
number only if a neighbour is. What is found is always read as the number: `ordinal_shortest`.
-/

namespace DeskCalculator.Decimal

open Binary64

/-- The count of units of rank `n` in steps of `10 ^ exponent`, as a numerator and a denominator. -/
def stepRatio (n : Nat) (exponent : Int) : Nat × Nat :=
  (unitsOfOrdinal n * Nat.pow 10 (-exponent).toNat, unitsOfOne * Nat.pow 10 exponent.toNat)

/-- The decimal of the grid `10 ^ exponent` that is read as the magnitude of rank `n`, if one is:
the nearer one of two, the upper one of two as near. -/
def onGrid? (n : Nat) (exponent : Int) : Option Decimal :=
  let (num, den) := stepRatio n exponent
  let below : Decimal := ⟨num / den, exponent⟩
  let above : Decimal := ⟨num / den + 1, exponent⟩
  if below.ordinal = n then
    some (if above.ordinal = n ∧ den ≤ 2 * (num % den) then above else below)
  else if above.ordinal = n then some above
  else none

/-- An exponent whose power of ten is above the magnitude of rank `n`, by two digits at most. -/
def topExponent (n : Nat) : Int :=
  (((unitsOfOrdinal n).log2 : Int) - unitExponent) * 30103 / 100000 + 2

/-- The decimal that writes all the digits of the magnitude of rank `n`. -/
def unrounded (n : Nat) : Decimal :=
  ⟨unitsOfOrdinal n * Nat.pow 5 unitExponent, -unitExponent⟩

/-- The shortest decimal that is read as the magnitude of rank `n`. Seventeen digits are always
enough, so that the first twenty grids hold it. -/
def shortest (n : Nat) : Decimal :=
  ((List.range 20).findSome? fun (i : Nat) => onGrid? n (topExponent n - i)).getD (unrounded n)

/-! ## Reading back -/

theorem nearestOrdinal_mul_five_pow (u k : Nat) :
    nearestOrdinal (u * Nat.pow 5 k * Nat.pow 10 0 * Nat.pow 2 k) (Nat.pow 10 k) =
      nearestOrdinal u 1 := by
  have hnum : u * 5 ^ k * 10 ^ 0 * 2 ^ k = 10 ^ k * u := by
    rw [Nat.pow_zero, Nat.mul_one, Nat.mul_assoc, ← Nat.mul_pow, Nat.mul_comm]
  have h := nearestOrdinal_mul_left (k := 10 ^ k) (Nat.pow_pos (by decide)) u 1
  rw [Nat.mul_one] at h
  simp only [Nat.pow_eq]
  rw [hnum, h]

theorem ordinal_unrounded {n : Nat} (h : n ≤ infinityOrdinal) : (unrounded n).ordinal = n := by
  unfold ordinal ratio unrounded unitsOfOne
  simp only
  rw [show (-(unitExponent : Int)).toNat = 0 by omega,
    show (- -(unitExponent : Int)).toNat = unitExponent by omega,
    nearestOrdinal_mul_five_pow, nearestOrdinal_unitsOfOrdinal h]

theorem ordinal_onGrid {n : Nat} {exponent : Int} {d : Decimal} (h : onGrid? n exponent = some d) :
    d.ordinal = n := by
  unfold onGrid? at h
  generalize stepRatio n exponent = r at h
  obtain ⟨num, den⟩ := r
  simp only at h
  by_cases hb : ordinal ⟨num / den, exponent⟩ = n
  · rw [if_pos hb, Option.some.injEq] at h
    split at h
    · next ha => rw [← h]; exact ha.1
    · rw [← h]; exact hb
  · rw [if_neg hb] at h
    split at h
    · next ha => rw [Option.some.injEq] at h; rw [← h]; exact ha
    · cases h

/-- The shortest decimal is read as the number that it was found for. -/
theorem ordinal_shortest {n : Nat} (h : n ≤ infinityOrdinal) : (shortest n).ordinal = n := by
  unfold shortest
  cases hs : (List.range 20).findSome? fun (i : Nat) => onGrid? n (topExponent n - i) with
  | none => exact ordinal_unrounded h
  | some d =>
    obtain ⟨i, _, hi⟩ := List.exists_of_findSome?_eq_some hs
    exact ordinal_onGrid hi

end DeskCalculator.Decimal
