import DeskCalculator.Proofs.Nearest

/-!
# Sums and differences

A finite number is a whole number of units, below zero or above (`signedUnits`), and it is given by this
count but for the sign of a zero (`eq_of_signedUnits`). Numbers are compared by their counts (`le_iff`), and
their sum and their difference are the numbers nearest to the sum and the difference of the counts
(`signedUnits_add`, `signedUnits_sub`). These are exact wherever the count has no excess bits
(`nearestUnits_of_dvd`).
-/

namespace DeskCalculator.Binary64

open Float.Model (Format UnpackedFloat)
open Float.Model.UnpackedFloat

/-! ## Signed counts -/

/-- The count of a finite number, negative if the number is. -/
def signedUnits (x : Float) : Int :=
  (signOf (isNegative x)).apply (units x)

/-- The rational number that a finite number is. -/
def value (x : Float) : ℚ :=
  signedUnits x / unitsOfOne

theorem apply_signOf_true (n : Int) : (signOf true).apply n = -n :=
  rfl

theorem apply_signOf_false (n : Int) : (signOf false).apply n = n :=
  rfl

theorem natAbs_apply (s : Sign) (n : Nat) : (s.apply n).natAbs = n := by
  cases s
  · exact (Int.natAbs_neg n).trans (Int.natAbs_natCast n)
  · exact Int.natAbs_natCast n

theorem apply_ne_zero (s : Sign) {n : Nat} (h : 0 < n) : s.apply n ≠ 0 := by
  rw [Ne, ← Int.natAbs_eq_zero, natAbs_apply]
  exact Nat.ne_of_gt h

theorem apply_mul (s : Sign) (a b : Int) : s.apply (a * b) = s.apply a * b := by
  cases s
  · exact (Int.neg_mul a b).symm
  · rfl

theorem natAbs_signedUnits (x : Float) : (signedUnits x).natAbs = units x :=
  natAbs_apply _ _

theorem natCast_dvd_signedUnits {x : Float} {d : Nat} : (d : Int) ∣ signedUnits x ↔ d ∣ units x := by
  rw [Int.natCast_dvd, natAbs_signedUnits]

theorem signedUnits_eq_zero_iff {x : Float} : signedUnits x = 0 ↔ ordinal x = 0 := by
  rw [← Int.natAbs_eq_zero, natAbs_signedUnits, units]
  exact ⟨fun h => strictMono_unitsOfOrdinal.injective h, fun h => by rw [h]; rfl⟩

theorem isNegative_eq_decide {x : Float} (h : signedUnits x ≠ 0) :
    isNegative x = decide (signedUnits x < 0) := by
  revert h
  rw [signedUnits]
  cases isNegative x with
  | true =>
    show -(units x : Int) ≠ 0 → true = decide (-(units x : Int) < 0)
    intro h
    exact (decide_eq_true (by omega)).symm
  | false => exact fun _ => (decide_eq_false (Int.not_lt.2 (Int.natCast_nonneg _))).symm

/-- A finite number is given by its count, but for the sign of a zero. -/
theorem eq_of_signedUnits {x y : Float} (h : signedUnits x = signedUnits y)
    (hzero : signedUnits x = 0 → isNegative x = isNegative y) : x = y := by
  have hordinal : ordinal x = ordinal y := by
    have hunits := congrArg Int.natAbs h
    rw [natAbs_signedUnits, natAbs_signedUnits] at hunits
    exact strictMono_unitsOfOrdinal.injective hunits
  have hsign : isNegative x = isNegative y := by
    by_cases hx : signedUnits x = 0
    · exact hzero hx
    · rw [isNegative_eq_decide hx, isNegative_eq_decide (h ▸ hx), h]
  rw [← ofOrdinal_isNegative_ordinal x, ← ofOrdinal_isNegative_ordinal y, hordinal, hsign]

/-- What a finite number stands for: a zero, or a significand that is doubled some times. -/
theorem unpack_cases {x : Float} (hx : x.isFinite = true) :
    (signedUnits x = 0 ∧ x.toModel.unpack = .zero (signOf (isNegative x))) ∨
      ∃ (k q : Nat) (hpos : 0 < q), q < 2 ^ 53 ∧ (k = 0 ∨ 2 ^ 52 ≤ q) ∧
        signedUnits x = (signOf (isNegative x)).apply (q * 2 ^ k : Nat) ∧
        x.toModel.unpack = .finite (signOf (isNegative x)) q ((k : Int) - 1074) hpos := by
  have hfinite := isFinite_iff.1 hx
  rw [unpack_toModel]
  rcases Nat.eq_zero_or_pos (ordinal x) with hzero | hpos
  · refine .inl ⟨signedUnits_eq_zero_iff.2 hzero, ?_⟩
    rw [hzero]
    rfl
  · obtain ⟨k, q, hq, hk, hn⟩ := exists_significand (ordinal x)
    rw [hn] at hfinite hpos
    refine .inr ⟨k, q, by omega, hq, hk, ?_, ?_⟩
    · rw [signedUnits, units, hn, unitsOfOrdinal_add (Nat.le_of_lt hq) hk]
    · rw [hn, unpacked_of_significand _ hq (by omega) hk hfinite]

/-! ## Comparing -/

/-- Significands in their places are compared like their counts. -/
theorem compare_significands {k q k' q' : Nat} (hq : q < 2 ^ 53) (hk : k = 0 ∨ 2 ^ 52 ≤ q)
    (hq' : q' < 2 ^ 53) (hk' : k' = 0 ∨ 2 ^ 52 ≤ q') :
    (compare ((k : Int) - 1074) ((k' : Int) - 1074)).then (compare q q') =
      compare (q * 2 ^ k) (q' * 2 ^ k') := by
  rw [← unitsOfOrdinal_add (Nat.le_of_lt hq) hk, ← unitsOfOrdinal_add (Nat.le_of_lt hq') hk',
    ← cmp_eq_compare (unitsOfOrdinal _), strictMono_unitsOfOrdinal.cmp_map_eq, cmp_eq_compare]
  rcases lt_trichotomy k k' with hlt | rfl | hgt
  · have hplace : (k : Int) - 1074 < k' - 1074 := by omega
    have hrank : k * 2 ^ 52 + q < k' * 2 ^ 52 + q' := by omega
    rw [compare_lt_iff_lt.2 hplace, compare_lt_iff_lt.2 hrank]
    rfl
  · rw [compare_eq_iff_eq.2 rfl, ← cmp_eq_compare (_ + q), cmp_add_left, cmp_eq_compare]
    rfl
  · have hplace : (k' : Int) - 1074 < k - 1074 := by omega
    have hrank : k' * 2 ^ 52 + q' < k * 2 ^ 52 + q := by omega
    rw [compare_gt_iff_gt.2 hplace, compare_gt_iff_gt.2 hrank]
    rfl

theorem compare_natCast (m n : Nat) : compare (m : Int) (n : Int) = compare m n := by
  rw [← cmp_eq_compare, Nat.strictMono_cast.cmp_map_eq, cmp_eq_compare]

theorem doubled_pos {k q : Nat} (hpos : 0 < q) : (0 : Int) < (q * 2 ^ k : Nat) :=
  Int.natCast_pos.2 (Nat.mul_pos hpos (Nat.two_pow_pos k))

/-- Numbers that are not zero are compared by their signs, and those of one sign by their significands. -/
theorem compare_finite (negative negative' : Bool) {k q k' q' : Nat} (hpos : 0 < q) (hpos' : 0 < q')
    (hq : q < 2 ^ 53) (hk : k = 0 ∨ 2 ^ 52 ≤ q) (hq' : q' < 2 ^ 53) (hk' : k' = 0 ∨ 2 ^ 52 ≤ q') :
    UnpackedFloat.compare (.finite (signOf negative) q ((k : Int) - 1074) hpos)
      (.finite (signOf negative') q' ((k' : Int) - 1074) hpos') =
        some (compare ((signOf negative).apply (q * 2 ^ k : Nat))
          ((signOf negative').apply (q' * 2 ^ k' : Nat))) := by
  have hsame := compare_significands hq hk hq' hk'
  cases negative <;> cases negative'
  · show some ((compare ((k : Int) - 1074) ((k' : Int) - 1074)).then (compare q q')) = _
    rw [hsame, apply_signOf_false, apply_signOf_false, compare_natCast]
  · rw [apply_signOf_false, apply_signOf_true, compare_gt_iff_gt.2
      ((Int.neg_neg_of_pos (doubled_pos hpos')).trans (doubled_pos hpos))]
    rfl
  · rw [apply_signOf_false, apply_signOf_true, compare_lt_iff_lt.2
      ((Int.neg_neg_of_pos (doubled_pos hpos)).trans (doubled_pos hpos'))]
    rfl
  · have hanti : StrictAnti fun n : Int => -n := fun _ _ => Int.neg_lt_neg
    show some ((compare ((k : Int) - 1074) ((k' : Int) - 1074)).then (compare q q')).swap = _
    rw [hsame, apply_signOf_true, apply_signOf_true, ← compare_natCast, ← cmp_eq_compare, cmp_swap,
      ← cmp_eq_compare]
    exact congrArg some (hanti.cmp_map_eq _ _).symm

/-- Finite numbers are compared by their counts. -/
theorem compare_unpack {x y : Float} (hx : x.isFinite = true) (hy : y.isFinite = true) :
    x.toModel.unpack.compare y.toModel.unpack = some (compare (signedUnits x) (signedUnits y)) := by
  rcases unpack_cases hx with ⟨hsx, hux⟩ | ⟨k, q, hpos, hq, hk, hsx, hux⟩ <;>
    rcases unpack_cases hy with ⟨hsy, huy⟩ | ⟨k', q', hpos', hq', hk', hsy, huy⟩ <;>
    rw [hux, huy, hsx, hsy]
  · rfl
  · cases isNegative y with
    | true =>
      rw [apply_signOf_true, compare_gt_iff_gt.2 (Int.neg_neg_of_pos (doubled_pos hpos'))]
      rfl
    | false =>
      rw [apply_signOf_false, compare_lt_iff_lt.2 (doubled_pos hpos')]
      rfl
  · cases isNegative x with
    | true =>
      rw [apply_signOf_true, compare_lt_iff_lt.2 (Int.neg_neg_of_pos (doubled_pos hpos))]
      rfl
    | false =>
      rw [apply_signOf_false, compare_gt_iff_gt.2 (doubled_pos hpos)]
      rfl
  · exact compare_finite _ _ hpos hpos' hq hk hq' hk'

theorem le_iff {x y : Float} (hx : x.isFinite = true) (hy : y.isFinite = true) :
    x ≤ y ↔ signedUnits x ≤ signedUnits y := by
  show decide ((x.toModel.unpack.compare y.toModel.unpack).any (·.isLE) = true) = true ↔ _
  rw [decide_eq_true_iff, compare_unpack hx hy, Option.any_some, Std.isLE_compare]

theorem lt_iff {x y : Float} (hx : x.isFinite = true) (hy : y.isFinite = true) :
    x < y ↔ signedUnits x < signedUnits y := by
  show decide ((x.toModel.unpack.compare y.toModel.unpack == some .lt) = true) = true ↔ _
  rw [decide_eq_true_iff, compare_unpack hx hy, beq_iff_eq, Option.some_inj, compare_lt_iff_lt]

theorem beq_zero_iff_signedUnits {x : Float} : (x == 0.0) = true ↔ signedUnits x = 0 := by
  rw [beq_zero_iff, signedUnits_eq_zero_iff]

/-! ## The number nearest to a count -/

/-- The number nearest to a count, a positive zero if the count is zero. -/
def ofSignedUnits (n : Int) : Float :=
  ofUnits (decide (n < 0)) n.natAbs

/-- The count of the number nearest to a count. -/
def nearestUnits (n : Int) : Int :=
  (signOf (decide (n < 0))).apply (unitsOfOrdinal (nearestOrdinal n.natAbs 1))

theorem nearestOrdinal_le (num den : Nat) : nearestOrdinal num den ≤ infinityOrdinal :=
  Nat.min_le_right _ _

/-- A count that has a number is the count of the number nearest to it. -/
theorem units_ofUnits (negative : Bool) {n : Nat}
    (h : nearestOrdinal n 1 < infinityOrdinal ∧ unitsOfOrdinal (nearestOrdinal n 1) = n) :
    (ofUnits negative n).isFinite = true ∧ isNegative (ofUnits negative n) = negative ∧
      units (ofUnits negative n) = n := by
  obtain ⟨hfinite, hunits⟩ := h
  have hle := Nat.le_of_lt hfinite
  rw [isFinite_iff, units, ofUnits, ofRatio, ordinal_ofOrdinal _ hle]
  exact ⟨hfinite, isNegative_ofOrdinal _ hle, hunits⟩

theorem signedUnits_ofSignedUnits (n : Int) : signedUnits (ofSignedUnits n) = nearestUnits n := by
  rw [signedUnits, units, ofSignedUnits, ofUnits, ofRatio, ordinal_ofOrdinal _ (nearestOrdinal_le _ _),
    isNegative_ofOrdinal _ (nearestOrdinal_le _ _), nearestUnits]

theorem isFinite_ofSignedUnits {n : Int} :
    (ofSignedUnits n).isFinite = true ↔ nearestOrdinal n.natAbs 1 < infinityOrdinal := by
  rw [isFinite_iff, ofSignedUnits, ofUnits, ofRatio, ordinal_ofOrdinal _ (nearestOrdinal_le _ _)]

theorem nearestOrdinal_units {x : Float} (hx : x.isFinite = true) :
    nearestOrdinal (units x) 1 < infinityOrdinal ∧
      unitsOfOrdinal (nearestOrdinal (units x) 1) = units x := by
  have hfinite := isFinite_iff.1 hx
  rw [units, nearestOrdinal_unitsOfOrdinal (Nat.le_of_lt hfinite)]
  exact ⟨hfinite, rfl⟩

/-- A number is nearest to its own count. -/
theorem ofSignedUnits_signedUnits {x : Float} (hx : x.isFinite = true) (h : signedUnits x ≠ 0) :
    ofSignedUnits (signedUnits x) = x := by
  rw [ofSignedUnits, ← isNegative_eq_decide h, natAbs_signedUnits, ofUnits, ofRatio, units,
    nearestOrdinal_unitsOfOrdinal (Nat.le_of_lt (isFinite_iff.1 hx)), ofOrdinal_isNegative_ordinal]

theorem nearestUnits_eq {n : Int} (h : nearestOrdinal n.natAbs 1 < infinityOrdinal ∧
    unitsOfOrdinal (nearestOrdinal n.natAbs 1) = n.natAbs) :
    (ofSignedUnits n).isFinite = true ∧ nearestUnits n = n := by
  obtain ⟨hfinite, hunits⟩ := h
  refine ⟨isFinite_ofSignedUnits.2 hfinite, ?_⟩
  rw [nearestUnits, hunits]
  by_cases hneg : n < 0
  · rw [decide_eq_true hneg, apply_signOf_true]
    omega
  · rw [decide_eq_false hneg, apply_signOf_false]
    omega

/-- A count without excess bits is that of a number. -/
theorem nearestUnits_of_dvd {n : Int} {k : Nat} (hdvd : ((2 ^ k : Nat) : Int) ∣ n)
    (hlt : n.natAbs < 2 ^ (53 + k)) (hk : k ≤ 2045) :
    (ofSignedUnits n).isFinite = true ∧ nearestUnits n = n :=
  nearestUnits_eq (unitsOfOrdinal_nearestOrdinal (Int.natCast_dvd.1 hdvd) hlt hk)

/-! ## Adding and subtracting -/

theorem ofModel_pack_normalize (n : Int) (j : Nat) :
    Float.ofModel (Float.Model.pack
      (UnpackedFloat.normalize Format.binary64 n ((j : Int) - 1074) .positive)) =
        ofSignedUnits (n * 2 ^ j) := by
  have hpos : (0 : Int) < 2 ^ j := Int.pow_pos (by decide)
  have habs : (n * 2 ^ j).natAbs = n.natAbs * 2 ^ j := by
    rw [Int.natAbs_mul, Int.natAbs_pow]
    rfl
  rw [ofSignedUnits, habs, UnpackedFloat.normalize]
  rcases lt_trichotomy n 0 with hneg | rfl | hgt
  · have htoNat : (-n).toNat = n.natAbs := by omega
    rw [compare_lt_iff_lt.2 hneg, decide_eq_true (Int.mul_neg_of_neg_of_pos hneg hpos), htoNat]
    exact ofModel_pack_round true (Int.natAbs_pos.2 (Int.ne_of_lt hneg)) j
  · rw [Int.zero_mul, Int.natAbs_zero, Nat.zero_mul]
    exact ofModel_pack_unpacked false (Nat.zero_le _)
  · have htoNat : n.toNat = n.natAbs := by omega
    rw [compare_gt_iff_gt.2 hgt, decide_eq_false (Int.not_lt.2 (Int.le_of_lt (Int.mul_pos hgt hpos))),
      htoNat]
    exact ofModel_pack_round false (Int.natAbs_pos.2 (Int.ne_of_gt hgt)) j

theorem ofModel_pack_unpack {x : Float} (hx : x.isFinite = true) :
    Float.ofModel (Float.Model.pack x.toModel.unpack) = x := by
  rw [unpack_toModel, ofModel_pack_unpacked _ (Nat.le_of_lt (isFinite_iff.1 hx)),
    ofOrdinal_isNegative_ordinal]

/-- What is added after both mantissas have been doubled to the same place. -/
theorem add_finite (s s' : Sign) {k q k' q' : Nat} (hpos : 0 < q) (hpos' : 0 < q') :
    Float.ofModel (Float.Model.pack (UnpackedFloat.add Format.binary64
      (.finite s q ((k : Int) - 1074) hpos) (.finite s' q' ((k' : Int) - 1074) hpos'))) =
        ofSignedUnits (s.apply (q * 2 ^ k : Nat) + s'.apply (q' * 2 ^ k' : Nat)) := by
  have hsmaller : min ((k : Int) - 1074) ((k' : Int) - 1074) = (min k k' : Nat) - 1074 := by omega
  have hscaled : ∀ {q k j : Nat}, j ≤ k →
      ((q * 2 ^ (k - j) : Nat) : Int) * 2 ^ j = (q * 2 ^ k : Nat) := by
    intro q k j hj
    push_cast
    rw [mul_assoc, ← pow_add, Nat.sub_add_cancel hj]
  rw [UnpackedFloat.add]
  simp only [hsmaller, decreaseExponent_eq]
  rw [ofModel_pack_normalize, Int.add_mul, ← apply_mul, ← apply_mul, hscaled (Nat.min_le_left _ _),
    hscaled (Nat.min_le_right _ _)]

/-- A sum is the number nearest to the sum of the counts, but that the sum of two negative zeros is
negative. -/
theorem add_eq {x y : Float} (hx : x.isFinite = true) (hy : y.isFinite = true) :
    x + y = ofSignedUnits (signedUnits x + signedUnits y) ∨
      signedUnits x + signedUnits y = 0 ∧ x + y = ofOrdinal true 0 := by
  have hadd : x + y = Float.ofModel (Float.Model.pack
    (UnpackedFloat.add Format.binary64 x.toModel.unpack y.toModel.unpack)) := rfl
  rcases unpack_cases hx with ⟨hsx, hux⟩ | ⟨k, q, hpos, -, -, hsx, hux⟩ <;>
    rcases unpack_cases hy with ⟨hsy, huy⟩ | ⟨k', q', hpos', -, -, hsy, huy⟩
  · have hzero : ∀ negative, Float.ofModel (Float.Model.pack (.zero (signOf negative))) =
        ofOrdinal negative 0 := fun negative => ofModel_pack_unpacked negative (Nat.zero_le _)
    rw [hadd, hux, huy, hsx, hsy]
    cases isNegative x <;> cases isNegative y
    · exact .inl (hzero false)
    · exact .inl (hzero false)
    · exact .inl (hzero false)
    · exact .inr ⟨rfl, hzero true⟩
  · have hne : signedUnits y ≠ 0 := hsy ▸ apply_ne_zero _ (Nat.mul_pos hpos' (Nat.two_pow_pos _))
    left
    rw [hsx, Int.zero_add, ofSignedUnits_signedUnits hy hne, hadd, hux, huy]
    show Float.ofModel (Float.Model.pack (.finite _ _ _ _)) = y
    rw [← huy, ofModel_pack_unpack hy]
  · have hne : signedUnits x ≠ 0 := hsx ▸ apply_ne_zero _ (Nat.mul_pos hpos (Nat.two_pow_pos _))
    left
    rw [hsy, Int.add_zero, ofSignedUnits_signedUnits hx hne, hadd, hux, huy]
    show Float.ofModel (Float.Model.pack (.finite _ _ _ _)) = x
    rw [← hux, ofModel_pack_unpack hx]
  · left
    rw [hadd, hux, huy, hsx, hsy, add_finite]

/-- The count of a sum that is in the range of the numbers. -/
theorem signedUnits_add {x y : Float} (hx : x.isFinite = true) (hy : y.isFinite = true)
    (h : (ofSignedUnits (signedUnits x + signedUnits y)).isFinite = true) :
    (x + y).isFinite = true ∧ signedUnits (x + y) = nearestUnits (signedUnits x + signedUnits y) := by
  rcases add_eq hx hy with hadd | ⟨hzero, hadd⟩
  · rw [hadd]
    exact ⟨h, signedUnits_ofSignedUnits _⟩
  · rw [hadd, hzero]
    exact ⟨by decide +kernel, by decide +kernel⟩

theorem neg_of_isFinite {x : Float} (hx : x.isFinite = true) :
    -x = ofOrdinal (!isNegative x) (ordinal x) := by
  have hneg := neg_ofOrdinal (isNegative x) (Nat.le_of_lt (isFinite_iff.1 hx))
  rwa [ofOrdinal_isNegative_ordinal] at hneg

theorem isFinite_neg {x : Float} (hx : x.isFinite = true) : (-x).isFinite = true := by
  rw [isFinite_iff, neg_of_isFinite hx, ordinal_ofOrdinal _ (Nat.le_of_lt (isFinite_iff.1 hx))]
  exact isFinite_iff.1 hx

theorem signedUnits_neg {x : Float} (hx : x.isFinite = true) : signedUnits (-x) = -signedUnits x := by
  have hle := Nat.le_of_lt (isFinite_iff.1 hx)
  rw [neg_of_isFinite hx, signedUnits, units, ordinal_ofOrdinal _ hle, isNegative_ofOrdinal _ hle,
    signedUnits, units]
  cases isNegative x
  · rfl
  · exact (Int.neg_neg _).symm

theorem abs_unpacked (negative : Bool) (n : Nat) :
    (unpacked negative n).abs = unpacked false n := by
  rcases unpacked_cases n with ⟨-, h⟩ | ⟨-, h⟩ | ⟨-, h⟩ | ⟨-, m, e, hm, h⟩ <;>
    rw [h, h, UnpackedFloat.abs]
  all_goals rfl

theorem abs_of_isFinite {x : Float} (hx : x.isFinite = true) : x.abs = ofOrdinal false (ordinal x) := by
  show Float.ofModel (Float.Model.pack x.toModel.unpack.abs) = _
  rw [unpack_toModel, abs_unpacked, ofModel_pack_unpacked _ (Nat.le_of_lt (isFinite_iff.1 hx))]

theorem signedUnits_abs {x : Float} (hx : x.isFinite = true) :
    x.abs.isFinite = true ∧ signedUnits x.abs = units x := by
  have hle := Nat.le_of_lt (isFinite_iff.1 hx)
  rw [isFinite_iff, signedUnits, units, abs_of_isFinite hx, ordinal_ofOrdinal _ hle,
    isNegative_ofOrdinal _ hle]
  exact ⟨isFinite_iff.1 hx, rfl⟩

theorem sub_eq_add_unpackedNeg (u v : UnpackedFloat) :
    UnpackedFloat.sub Format.binary64 u v = UnpackedFloat.add Format.binary64 u v.neg := by
  have happly : ∀ (s : Sign) (n : Int), (-s).apply n = -s.apply n := by
    rintro (_ | _) n
    · exact (Int.neg_neg n).symm
    · rfl
  cases u <;> cases v <;>
    simp only [UnpackedFloat.sub, UnpackedFloat.add, UnpackedFloat.neg, happly, Int.sub_eq_add_neg]

/-- Subtracting is adding the negation. -/
theorem sub_eq_add_neg {x y : Float} (hy : y.isFinite = true) : x - y = x + -y := by
  have hle := Nat.le_of_lt (isFinite_iff.1 hy)
  have hunpack : (-y).toModel.unpack = y.toModel.unpack.neg := by
    rw [unpack_toModel, unpack_toModel, neg_of_isFinite hy, ordinal_ofOrdinal _ hle,
      isNegative_ofOrdinal _ hle, neg_unpacked]
  show Float.ofModel (Float.Model.pack
    (UnpackedFloat.sub Format.binary64 x.toModel.unpack y.toModel.unpack)) = Float.ofModel
      (Float.Model.pack (UnpackedFloat.add Format.binary64 x.toModel.unpack (-y).toModel.unpack))
  rw [hunpack, sub_eq_add_unpackedNeg]

/-- The count of a difference that is in the range of the numbers. -/
theorem signedUnits_sub {x y : Float} (hx : x.isFinite = true) (hy : y.isFinite = true)
    (h : (ofSignedUnits (signedUnits x - signedUnits y)).isFinite = true) :
    (x - y).isFinite = true ∧ signedUnits (x - y) = nearestUnits (signedUnits x - signedUnits y) := by
  rw [Int.sub_eq_add_neg, ← signedUnits_neg hy] at h ⊢
  rw [sub_eq_add_neg hy]
  exact signedUnits_add hx (isFinite_neg hy) h

end DeskCalculator.Binary64
