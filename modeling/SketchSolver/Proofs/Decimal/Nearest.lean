import SketchSolver.Proofs.Decimal.Doubles
import SketchSolver.Proofs.Decimal.Values

/-!
# Decimals that read back

Every decimal in the interval of a double is read as that double (`nearest_eq`): the bits that
`nearestBits` computes are those of the double (`nearestBits_eq`). A decimal from one to below
the largest double is in some interval, so it is read as a double at most half a place above
it (`ofFloat_nearest`).

The significand of a power of two is the delicate case. The lower half place of its interval
belongs to the binade below, where the value is rounded on the finer grid and the carry takes
it back.

The interval of a double is the set of rationals that are nearer to it than to any other
double, with the ends if its significand is even. Reading computes the binary exponent of the
decimal, which places the grid, and rounds on that grid to the nearest point, to the even one
at a tie. Within an interval the exponent is that of the double, or one less where the value
is below a power of two (`floorLog2_le_of_has`); for these two cases the rounded significand is
computed, and in the second one it is the full grid below, which has the bits of the power of
two.

Since the bits of doubles count them, a carry in the significand is a carry in the bits, and
no case is needed for the exponent field.

Very large and very small decimals are settled before any power is computed, by counting their
digits (`magnitude_of_has`). A decimal in an interval is between the bounds, so it is not
affected.
-/

namespace SketchSolver.Decimal

variable {m : Nat} {q : Int} {x : ℚ}

/-- How far below `m · 2^q` its interval reaches, in places of `2^q`. -/
def reach (m : Nat) (q : Int) : ℚ := if m = 2 ^ 52 ∧ minExponent < q then 1 / 4 else 1 / 2

theorem reach_le : reach m q ≤ 1 / 2 := by
  unfold reach
  split <;> norm_num

theorem reach_pos : 0 < reach m q := by
  unfold reach
  split <;> norm_num

/-- The interval of `m · 2^q` in rational numbers. -/
theorem has_interval_iff (positive : 0 < m) :
    (interval m q).Has q x ↔
      if m % 2 = 0 then (m - reach m q) * 2 ^ q ≤ x ∧ x ≤ (m + 1 / 2) * 2 ^ q
      else (m - reach m q) * 2 ^ q < x ∧ x < (m + 1 / 2) * 2 ^ q := by
  have quarter : (2 : ℚ) ^ q = 4 * 2 ^ (q - 2) := by
    rw [zpow_sub₀ two_ne_zero]
    norm_num
    ring
  have high : ((4 * m + 2 : Nat) : ℚ) * 2 ^ (q - 2) = (m + 1 / 2) * 2 ^ q := by
    rw [quarter]
    push_cast
    ring
  have low : ((4 * m - if m = 2 ^ 52 ∧ minExponent < q then 1 else 2 : Nat) : ℚ) * 2 ^ (q - 2) =
      (m - reach m q) * 2 ^ q := by
    unfold reach
    rw [quarter]
    split
    next => rw [Nat.cast_sub (by omega)]; push_cast; ring
    next => rw [Nat.cast_sub (by omega)]; push_cast; ring
  have power : Nat.pow 2 fractionBits = 2 ^ 52 := rfl
  unfold Interval.Has interval
  dsimp only
  rw [power, low, high]
  simp only [beq_iff_eq]

/-- The ends of an interval belong to it only for an even significand. -/
theorem bounds_of_has (positive : 0 < m) (has : (interval m q).Has q x) :
    (m - reach m q) * 2 ^ q ≤ x ∧ x ≤ (m + 1 / 2) * 2 ^ q ∧
      (x = (m - reach m q) * 2 ^ q ∨ x = (m + 1 / 2) * 2 ^ q → m % 2 = 0) := by
  rw [has_interval_iff positive] at has
  split at has
  next even => exact ⟨has.1, has.2, fun _ => even⟩
  next odd =>
    refine ⟨has.1.le, has.2.le, ?_⟩
    rintro (equal | equal)
    · exact absurd equal has.1.ne'
    · exact absurd equal has.2.ne

/-- What is strictly between the ends is in the interval. -/
theorem has_of_between (positive : 0 < m) (low : (m - reach m q) * 2 ^ q < x)
    (high : x < (m + 1 / 2) * 2 ^ q) : (interval m q).Has q x := by
  rw [has_interval_iff positive]
  split
  next => exact ⟨low.le, high.le⟩
  next => exact ⟨low, high⟩

/-! ## The bits of the nearest double -/

section Bits

variable {v : Positive}

/-- The exponent of the last place of the doubles around a value. -/
def lastPlace (v : Positive) : Int := max minExponent (floorLog2 v - fractionBits)

/-- The bits are made of the last place and the rounded significand. -/
theorem nearestBits_of_rounded {r : Nat} (rounded : roundHalfEven (v.shiftBy 2 (lastPlace v)) = r)
    (below : (lastPlace v + 1074).toNat * 2 ^ 52 + r < 2047 * 2 ^ 52) :
    nearestBits v = (lastPlace v + 1074).toNat * 2 ^ 52 + r := by
  show min infinityBits ((lastPlace v - minExponent).toNat * 2 ^ 52 +
    roundHalfEven (v.shiftBy 2 (lastPlace v))) = _
  rw [rounded]
  exact Nat.min_eq_right (Nat.le_of_lt below)

theorem lt_of_zpow_lt {a b : Int} (less : (2 : ℚ) ^ a < 2 ^ b) : a < b :=
  (zpow_lt_zpow_iff_right₀ one_lt_two).mp less

/-- A value in the interval of a double has no more binary digits than the double. -/
theorem floorLog2_le_of_has (canonical : Canonical m q) (proper : v.Proper)
    (has : (interval m q).Has q v.value) : floorLog2 v ≤ q + 52 := by
  have place : (0 : ℚ) < 2 ^ q := zpow_pos two_pos q
  have m53 : (m : ℚ) + 1 ≤ 2 ^ 53 := by exact_mod_cast canonical.below
  have small : (2 : ℚ) ^ floorLog2 v < 2 ^ (q + 53) := by
    calc (2 : ℚ) ^ floorLog2 v ≤ v.value := (floorLog2_spec proper).1
      _ ≤ (m + 1 / 2) * 2 ^ q := (bounds_of_has canonical.positive has).2.1
      _ < 2 ^ 53 * 2 ^ q := by gcongr; linarith
      _ = 2 ^ (q + 53) := by rw [zpow_add₀ two_ne_zero, mul_comm]; norm_num
  have := lt_of_zpow_lt small
  omega

/-- On the grid of the double itself, a value of its interval is rounded to the significand. -/
theorem roundHalfEven_of_has (positive : 0 < m) (proper : v.Proper)
    (has : (interval m q).Has q v.value) : roundHalfEven (v.shiftBy 2 q) = m := by
  obtain ⟨low, high, tie⟩ := bounds_of_has positive has
  have place : (0 : ℚ) < 2 ^ q := zpow_pos two_pos q
  have half : (m - 1 / 2 : ℚ) * 2 ^ q ≤ (m - reach m q) * 2 ^ q := by
    have := @reach_le m q
    gcongr
  have value : (v.shiftBy 2 q).value = v.value / 2 ^ q := by
    rw [Positive.value_shiftBy, Nat.cast_ofNat]
  refine roundHalfEven_eq (proper.shiftBy two_pos q) ?_ ?_ ?_
  · rw [value, le_div_iff₀ place]
    exact half.trans low
  · rw [value, div_le_iff₀ place]
    exact high
  · rw [value, div_eq_iff place.ne', div_eq_iff place.ne']
    rintro (equal | equal)
    · exact tie (Or.inl (le_antisymm (equal.le.trans half) low))
    · exact tie (Or.inr equal)

/-- Only below a power of two does an interval reach into the binade below. -/
theorem eq_of_floorLog2_lt (canonical : Canonical m q) (proper : v.Proper)
    (has : (interval m q).Has q v.value) (less : floorLog2 v < q + 52) (inner : minExponent < q) :
    m = 2 ^ 52 ∧ floorLog2 v = q + 51 := by
  have place : (0 : ℚ) < 2 ^ q := zpow_pos two_pos q
  have low := (bounds_of_has canonical.positive has).1
  have half := @reach_le m q
  have high := (floorLog2_spec proper).2
  -- only a power of two has values in its interval with a smaller logarithm
  have m52 := canonical.normal inner
  have m52' : (2 : ℚ) ^ 52 ≤ m := by exact_mod_cast m52
  constructor
  · have : ((m : ℚ) - reach m q) * 2 ^ q < 2 ^ 52 * 2 ^ q := by
      calc ((m : ℚ) - reach m q) * 2 ^ q ≤ v.value := low
        _ < 2 ^ (floorLog2 v + 1) := high
        _ ≤ 2 ^ (52 + q) := by
          refine zpow_le_zpow_right₀ one_le_two ?_
          omega
        _ = 2 ^ 52 * 2 ^ q := by rw [zpow_add₀ two_ne_zero]; norm_num
    have := lt_of_mul_lt_mul_right this place.le
    have : (m : ℚ) < (2 ^ 52 + 1 : Nat) := by
      push_cast
      linarith
    have := Nat.cast_lt.mp this
    omega
  · have : (2 : ℚ) ^ (51 + q) < 2 ^ (floorLog2 v + 1) := by
      calc (2 : ℚ) ^ (51 + q) = 2 ^ 51 * 2 ^ q := by rw [zpow_add₀ two_ne_zero]; norm_num
        _ ≤ (m - reach m q) * 2 ^ q := by
          gcongr
          linarith
        _ ≤ v.value := low
        _ < 2 ^ (floorLog2 v + 1) := high
    have := lt_of_zpow_lt this
    omega

/-- There the value is rounded up on the finer grid. -/
theorem roundHalfEven_of_carry (proper : v.Proper) (inner : minExponent < q)
    (has : (interval (2 ^ 52) q).Has q v.value) (small : v.value < 2 ^ (q + 52)) :
    roundHalfEven (v.shiftBy 2 (q - 1)) = 2 ^ 53 := by
  have finer : (2 : ℚ) ^ q = 2 * 2 ^ (q - 1) := by
    rw [zpow_sub_one₀ two_ne_zero]
    ring
  have place : (0 : ℚ) < 2 ^ (q - 1) := zpow_pos two_pos _
  have value : (v.shiftBy 2 (q - 1)).value = v.value / 2 ^ (q - 1) := by
    rw [Positive.value_shiftBy, Nat.cast_ofNat]
  have low := (bounds_of_has (by decide) has).1
  rw [reach, if_pos ⟨rfl, inner⟩, finer] at low
  rw [zpow_add₀ two_ne_zero, finer] at small
  refine roundHalfEven_eq (proper.shiftBy two_pos (q - 1)) ?_ ?_ fun _ => by decide
  · rw [value, le_div_iff₀ place]
    push_cast at low ⊢
    linarith
  · rw [value, div_le_iff₀ place]
    norm_num at small ⊢
    linarith

/-- **Every value in the interval of a double has the bits of that double.** -/
theorem nearestBits_eq (canonical : Canonical m q) (proper : v.Proper)
    (has : (interval m q).Has q v.value) : nearestBits v = (q + 1074).toNat * 2 ^ 52 + m := by
  have ⟨positive, below, lowest, highest, normal⟩ := canonical
  have digits := floorLog2_le_of_has canonical proper has
  -- the value is rounded on the grid of the double, or on the finer one below a power of two
  by_cases same : lastPlace v = q
  · have rounded := roundHalfEven_of_has positive proper has
    rw [← same] at rounded
    rw [nearestBits_of_rounded rounded (by omega), same]
  · have less : floorLog2 v < q + 52 ∧ minExponent < q := by
      unfold lastPlace at same
      unfold minExponent fractionBits at *
      omega
    obtain ⟨rfl, carry⟩ := eq_of_floorLog2_lt canonical proper has less.1 less.2
    have finer : lastPlace v = q - 1 := by
      unfold lastPlace
      unfold minExponent fractionBits at *
      omega
    have small : v.value < 2 ^ (q + 52) := by
      have := (floorLog2_spec proper).2
      rwa [carry, show q + 51 + 1 = q + 52 by omega] at this
    have rounded := roundHalfEven_of_carry proper less.2 has small
    rw [← finer] at rounded
    unfold minExponent at lowest less
    rw [nearestBits_of_rounded rounded (by omega), finer]
    omega

theorem largest_lt_two_pow : ((2 : ℚ) ^ 53 - 1) * 2 ^ (971 : Int) < 2 ^ (1024 : Int) := by
  calc ((2 : ℚ) ^ 53 - 1) * 2 ^ (971 : Int) < 2 ^ 53 * 2 ^ (971 : Int) := by gcongr; norm_num
    _ = 2 ^ (1024 : Int) := by
      rw [← zpow_natCast, ← zpow_add₀ two_ne_zero]
      rfl

/-- The bits of a significand that may have been carried to the next power of two. -/
theorem ofFloat_ofBits {r : Nat} {q : Int} (lowest : minExponent ≤ q) (highest : q ≤ 971)
    (normal : 2 ^ 52 ≤ r) (carry : r ≤ 2 ^ 53) (room : q = 971 → r < 2 ^ 53) :
    ∃ m p, Binary.ofFloat (Float.ofBits ((q + 1074).toNat * 2 ^ 52 + r).toUInt64) =
      .finite false m p ∧ 2 ^ 52 ≤ m ∧ (m : ℚ) * 2 ^ p = r * 2 ^ q := by
  unfold minExponent at lowest
  obtain ⟨b, bits⟩ : ∃ b, (q + 1074).toNat * 2 ^ 52 + r = b := ⟨_, rfl⟩
  have whole : b.toUInt64.toNat = b := UInt64.toNat_ofNat_of_lt' (by
    show b < 2 ^ 64
    omega)
  rw [bits, ofFloat_eq (n := b) (by rw [toBits_ofBits (by omega), whole]), if_neg (by omega),
    if_neg (by omega), show (b / 2 ^ 63 == 1) = false from beq_eq_false_iff_ne.mpr (by omega)]
  refine ⟨_, _, rfl, by omega, ?_⟩
  unfold minExponent
  rcases Nat.lt_or_eq_of_le carry with small | rfl
  · rw [show 2 ^ 52 + b % 2 ^ 52 = r by omega,
      show (-1074 + ((b / 2 ^ 52 % 2048 : Nat) - 1) : Int) = q by omega]
  · rw [show 2 ^ 52 + b % 2 ^ 52 = 2 ^ 52 by omega,
      show (-1074 + ((b / 2 ^ 52 % 2048 : Nat) - 1) : Int) = q + 1 by omega,
      zpow_add_one₀ two_ne_zero]
    push_cast
    ring

/-- The double with the bits of a value from one to below the largest double. -/
theorem ofFloat_nearestBits (proper : v.Proper) (large : 1 ≤ v.value)
    (small : v.value < (2 ^ 53 - 1) * 2 ^ (971 : Int)) :
    ∃ m q, Binary.ofFloat (Float.ofBits (nearestBits v).toUInt64) = .finite false m q ∧
      2 ^ 52 ≤ m ∧ (m : ℚ) * 2 ^ q ≤ v.value * (1 + 2 ^ (-53 : Int)) := by
  obtain ⟨digitsLow, digitsHigh⟩ := floorLog2_spec proper
  have logLow : 0 < floorLog2 v + 1 :=
    lt_of_zpow_lt (lt_of_le_of_lt (by rwa [zpow_zero]) digitsHigh)
  have logHigh : floorLog2 v < 1024 :=
    lt_of_zpow_lt (digitsLow.trans_lt (small.trans largest_lt_two_pow))
  have scaled := proper.shiftBy two_pos (lastPlace v)
  have value : (v.shiftBy 2 (lastPlace v)).value = v.value / 2 ^ lastPlace v := by
    rw [Positive.value_shiftBy, Nat.cast_ofNat]
  have place : floorLog2 v = lastPlace v + 52 := by
    unfold lastPlace minExponent fractionBits
    omega
  -- a value from one on is far above the subnormal doubles, so the last place follows the logarithm
  obtain ⟨q, last⟩ : ∃ q, lastPlace v = q := ⟨_, rfl⟩
  rw [place, last] at digitsLow digitsHigh logLow logHigh
  rw [last] at scaled value
  have unit : (0 : ℚ) < 2 ^ q := zpow_pos two_pos q
  obtain ⟨r, rounded⟩ : ∃ r, roundHalfEven (v.shiftBy 2 q) = r := ⟨_, rfl⟩
  have above := scaled.roundHalfEven_le
  rw [rounded, value] at above
  have normal : 2 ^ 52 ≤ r := by
    rw [← rounded]
    refine scaled.le_roundHalfEven ?_
    rw [value, le_div_iff₀ unit]
    rw [zpow_add₀ two_ne_zero, mul_comm] at digitsLow
    exact_mod_cast digitsLow
  -- rounding may carry into the next power of two, but not with the largest exponent
  have carry : r ≤ 2 ^ 53 := by
    have : v.value / 2 ^ q < 2 ^ 53 := by
      rw [div_lt_iff₀ unit]
      rw [add_assoc, zpow_add₀ two_ne_zero, mul_comm] at digitsHigh
      exact_mod_cast digitsHigh
    have : (r : ℚ) < (2 ^ 53 + 1 : Nat) := by push_cast; linarith
    exact Nat.lt_succ_iff.mp (by exact_mod_cast this)
  have room : q = 971 → r < 2 ^ 53 := by
    rintro rfl
    rw [← div_lt_iff₀ unit] at small
    have : (r : ℚ) < (2 ^ 53 : Nat) := by push_cast; linarith
    exact_mod_cast this
  rw [nearestBits_of_rounded (r := r) (by rw [last, rounded]) (by rw [last]; omega), last]
  obtain ⟨m, p, exact, normal', same⟩ := ofFloat_ofBits (by unfold minExponent; omega) (by omega)
    normal carry room
  refine ⟨m, p, exact, normal', ?_⟩
  have half : (2 : ℚ) ^ q * (1 / 2) ≤ v.value * 2 ^ (-53 : Int) := by
    calc (2 : ℚ) ^ q * (1 / 2) = 2 ^ (q + 52) * 2 ^ (-53 : Int) := by
          rw [← zpow_add₀ two_ne_zero, one_div, ← zpow_sub_one₀ two_ne_zero]
          congr 1
          omega
      _ ≤ v.value * 2 ^ (-53 : Int) := by gcongr
  calc (m : ℚ) * 2 ^ p = r * 2 ^ q := same
    _ ≤ (v.value / 2 ^ q + 1 / 2) * 2 ^ q := by gcongr
    _ = v.value + 2 ^ q * (1 / 2) := by field_simp
    _ ≤ v.value * (1 + 2 ^ (-53 : Int)) := by linarith

end Bits

/-! ## The magnitude of a decimal -/

theorem two_pow_le_ten_pow : (2 : ℚ) ^ 1024 ≤ 10 ^ 309 ∧ (2 : ℚ) ^ 1075 ≤ 10 ^ 330 := by
  constructor
  · have tens : (2 : ℚ) ^ 93 ≤ 10 ^ 28 := by norm_num
    calc (2 : ℚ) ^ 1024 = 2 * (2 ^ 93) ^ 11 := by rw [← pow_mul, ← pow_succ']
      _ ≤ 10 * (10 ^ 28) ^ 11 := by gcongr; norm_num
      _ = 10 ^ 309 := by rw [← pow_mul, ← pow_succ']
  · have tens : (2 : ℚ) ^ 43 ≤ 10 ^ 13 := by norm_num
    calc (2 : ℚ) ^ 1075 = (2 ^ 43) ^ 25 := by rw [← pow_mul]
      _ ≤ (10 ^ 13) ^ 25 := by gcongr
      _ = 10 ^ 325 := by rw [← pow_mul]
      _ ≤ 10 ^ 330 := pow_le_pow_right₀ (by norm_num) (by decide)

/-- What lies in the interval of a finite double is neither too large nor too small to be read. -/
theorem magnitude_of_has (canonical : Canonical m q) (has : (interval m q).Has q x) :
    (10 : ℚ) ^ (-330 : Int) ≤ x ∧ x < 10 ^ (310 : Int) := by
  have ⟨positive, below, lowest, highest, normal⟩ := canonical
  obtain ⟨low, high, -⟩ := bounds_of_has positive has
  have half := @reach_le m q
  have m1 : (1 : ℚ) ≤ m := by exact_mod_cast positive
  have m53 : (m : ℚ) + 1 ≤ 2 ^ 53 := by exact_mod_cast below
  constructor
  · calc (10 : ℚ) ^ (-330 : Int) ≤ 2 ^ (-1075 : Int) := by
          rw [zpow_neg, zpow_neg]
          exact inv_anti₀ (by positivity) two_pow_le_ten_pow.2
      _ = 1 / 2 * 2 ^ (-1074 : Int) := by
        rw [show (-1075 : Int) = -1074 - 1 by decide, zpow_sub_one₀ two_ne_zero, one_div, mul_comm]
      _ ≤ 1 / 2 * 2 ^ q := by
        gcongr
        · exact one_le_two
        · exact lowest
      _ ≤ (m - reach m q) * 2 ^ q := by gcongr; linarith
      _ ≤ x := low
  · calc x ≤ (m + 1 / 2) * 2 ^ q := high
      _ < 2 ^ 53 * 2 ^ q := by gcongr; linarith
      _ ≤ 2 ^ 53 * 2 ^ (971 : Int) := by gcongr; exact one_le_two
      _ = 2 ^ (1024 : Int) := by
        rw [← zpow_natCast, ← zpow_add₀ two_ne_zero]
        rfl
      _ ≤ 10 ^ (309 : Int) := two_pow_le_ten_pow.1
      _ ≤ 10 ^ (310 : Int) := zpow_le_zpow_right₀ (by norm_num) (by decide)

/-- A decimal that is neither too large nor too small is read from its exact value. -/
theorem nearest_eq_ofBits {n : Nat} {e : Int} (low : (10 : ℚ) ^ (-330 : Int) ≤ n * 10 ^ e)
    (high : (n : ℚ) * 10 ^ e < 10 ^ (310 : Int)) :
    0 < n ∧ nearest n e = Float.ofBits (nearestBits (.scaled n 10 e)).toUInt64 := by
  have power : (0 : ℚ) < 10 ^ e := zpow_pos (by norm_num) e
  have nonzero : 0 < n := by
    refine Nat.pos_of_ne_zero fun zero => ?_
    rw [zero, Nat.cast_zero, zero_mul] at low
    exact absurd low (not_le.mpr (zpow_pos (by norm_num) _))
  -- neither shortcut is taken: the count of digits and the exponent bound the magnitude
  have digitsLow : (10 : ℚ) ^ (digitCount n - 1) ≤ n := by
    exact_mod_cast ten_pow_le_of_pos nonzero
  have digitsHigh : (n : ℚ) < 10 ^ digitCount n := by exact_mod_cast lt_ten_pow_digitCount n
  have notInfinite : ¬310 < e + digitCount n := by
    have : (10 : ℚ) ^ (((digitCount n - 1 : Nat) : Int) + e) < 10 ^ (310 : Int) := by
      calc (10 : ℚ) ^ (((digitCount n - 1 : Nat) : Int) + e)
          = 10 ^ (digitCount n - 1) * 10 ^ e := by
            rw [zpow_add₀ (by norm_num), zpow_natCast]
        _ ≤ n * 10 ^ e := by gcongr
        _ < 10 ^ (310 : Int) := high
    have := (zpow_lt_zpow_iff_right₀ (by norm_num)).mp this
    omega
  have notZero : ¬e + digitCount n < -330 := by
    have : (10 : ℚ) ^ (-330 : Int) < 10 ^ ((digitCount n : Int) + e) := by
      calc (10 : ℚ) ^ (-330 : Int) ≤ n * 10 ^ e := low
        _ < 10 ^ digitCount n * 10 ^ e := by gcongr
        _ = 10 ^ ((digitCount n : Int) + e) := by rw [zpow_add₀ (by norm_num), zpow_natCast]
    have := (zpow_lt_zpow_iff_right₀ (by norm_num)).mp this
    omega
  refine ⟨nonzero, ?_⟩
  unfold nearest
  dsimp only
  rw [if_neg (Nat.ne_of_gt nonzero), if_neg notInfinite, if_neg notZero]

/-- **A decimal in the interval of a double is read as that double.** -/
theorem nearest_eq {y : Float} {n : Nat} {e : Int} (value : Binary.ofFloat y = .finite false m q)
    (has : (interval m q).Has q (n * 10 ^ e)) : nearest n e = y := by
  have canonical := (toBits_of_finite value).1
  obtain ⟨low, high⟩ := magnitude_of_has canonical has
  obtain ⟨nonzero, read⟩ := nearest_eq_ofBits low high
  have scaled := Positive.proper_scaled nonzero (b := 10) (by decide) e
  rw [read, nearestBits_eq canonical scaled (by rw [Positive.value_scaled]; exact has)]
  exact ofBits_of_finite value

theorem largest_lt_ten_pow : ((2 : ℚ) ^ 53 - 1) * 2 ^ (971 : Int) < 10 ^ (309 : Int) :=
  largest_lt_two_pow.trans_le two_pow_le_ten_pow.1

/-- **A decimal from one to below the largest double is read as a normal double** that is above it
by half a place at most. -/
theorem ofFloat_nearest {n : Nat} {e : Int} (large : (1 : ℚ) ≤ n * 10 ^ e)
    (small : (n : ℚ) * 10 ^ e < (2 ^ 53 - 1) * 2 ^ (971 : Int)) :
    ∃ m q, Binary.ofFloat (nearest n e) = .finite false m q ∧ 2 ^ 52 ≤ m ∧
      (m : ℚ) * 2 ^ q ≤ n * 10 ^ e * (1 + 2 ^ (-53 : Int)) := by
  have low : (10 : ℚ) ^ (-330 : Int) ≤ n * 10 ^ e :=
    (zpow_le_one_of_nonpos₀ (by norm_num) (by decide)).trans large
  have high : (n : ℚ) * 10 ^ e < 10 ^ (310 : Int) :=
    (small.trans largest_lt_ten_pow).trans (zpow_lt_zpow_right₀ (by norm_num) (by decide))
  obtain ⟨nonzero, read⟩ := nearest_eq_ofBits low high
  have proper := Positive.proper_scaled nonzero (b := 10) (by decide) e
  have exact : (Positive.scaled n 10 e).value = n * 10 ^ e := Positive.value_scaled n 10 e
  rw [read, ← exact]
  rw [← exact] at large small
  generalize Positive.scaled n 10 e = v at *
  exact ofFloat_nearestBits proper large small

end SketchSolver.Decimal
