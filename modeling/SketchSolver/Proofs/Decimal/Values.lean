import Mathlib.Algebra.Order.Field.Power
import Mathlib.Algebra.Order.Field.Rat
import Mathlib.Tactic.GCongr
import Mathlib.Tactic.Linarith
import Mathlib.Tactic.Ring
import SketchSolver.Decimal.Reading

/-!
# The rational numbers behind decimals

What the arithmetic of decimals computes, as facts about rational numbers: the value of a
quotient and of digits, the logarithms `floorLog2` and `floorLog10`, rounding to the nearest
natural number, and the interval of the rationals that round to a double.

The program has no rational numbers. It keeps a quotient of two natural numbers that is not
reduced, puts powers on whichever side they are natural, and compares by multiplying out.
Exponents are integers, and so every definition has two branches, for exponents below zero and
for others. Here each of these functions gets one statement, in which powers have integer
exponents and a quotient is a number, and the branches are gone.

Logarithms are computed by counting digits, of a natural number that is the value times a power
high enough. The statements say of them what logarithms are for: the power is at most the
value, and the next one is above it (`floorLog2_spec`, `floorLog10_spec`).

Rounding to the nearest natural number with ties to even is characterised by its two
inequalities and by parity where one of them is an equality (`roundHalfEven_eq`).

The ends of an interval are multiples of a quarter place, because the lower half of the one
below a power of two is half as wide. Membership is then a comparison of natural numbers
(`Interval.contains_iff`).
-/

namespace SketchSolver.Decimal

/-! ## Quotients -/

theorem zpow_of_neg {b : ℚ} {e : Int} (negative : e < 0) : b ^ e = (b ^ e.natAbs)⁻¹ := by
  rw [← zpow_natCast, ← zpow_neg]
  congr 1
  omega

theorem zpow_of_nonneg {b : ℚ} {e : Int} (nonneg : ¬e < 0) : b ^ e = b ^ e.natAbs := by
  rw [← zpow_natCast]
  congr 1
  omega

/-- The rational number that a quotient stands for. -/
def Positive.value (v : Positive) : ℚ := v.num / v.den

/-- The rational number that digits stand for. -/
def Digits.value (d : Digits) : ℚ := d.digits * 10 ^ d.exponent

/-- Neither part of a quotient is zero. -/
structure Positive.Proper (v : Positive) : Prop where
  num : 0 < v.num
  den : 0 < v.den

namespace Positive

variable {v : Positive}

theorem value_scaled (m b : Nat) (e : Int) : (scaled m b e).value = m * (b : ℚ) ^ e := by
  unfold scaled value
  split
  next negative => rw [zpow_of_neg negative, div_eq_mul_inv, Nat.pow_eq, Nat.cast_pow]
  next nonneg =>
    rw [zpow_of_nonneg nonneg, Nat.cast_one, div_one, Nat.pow_eq, Nat.cast_mul, Nat.cast_pow]

theorem proper_scaled {m b : Nat} (hm : 0 < m) (hb : 0 < b) (e : Int) : (scaled m b e).Proper := by
  unfold scaled
  split
  next => exact ⟨hm, Nat.pow_pos hb⟩
  next => exact ⟨Nat.mul_pos hm (Nat.pow_pos hb), Nat.one_pos⟩

/-- The value divided by a power, as `shift` does it for powers of ten. -/
def shiftBy (v : Positive) (b : Nat) (k : Int) : Positive :=
  if k < 0 then ⟨v.num * Nat.pow b k.natAbs, v.den⟩ else ⟨v.num, v.den * Nat.pow b k.natAbs⟩

/-- Shifting is dividing by a power of ten. -/
theorem shift_eq_shiftBy (v : Positive) (k : Int) : v.shift k = v.shiftBy 10 k := rfl

theorem value_shiftBy (v : Positive) (b : Nat) (k : Int) :
    (v.shiftBy b k).value = v.value / (b : ℚ) ^ k := by
  unfold shiftBy value
  split
  next negative =>
    rw [zpow_of_neg negative, div_inv_eq_mul, Nat.pow_eq, Nat.cast_mul, Nat.cast_pow]
    exact mul_div_right_comm _ _ _
  next nonneg =>
    rw [zpow_of_nonneg nonneg, div_div, Nat.pow_eq, Nat.cast_mul, Nat.cast_pow]

theorem Proper.shiftBy (proper : v.Proper) {b : Nat} (hb : 0 < b) (k : Int) : (v.shiftBy b k).Proper := by
  unfold Positive.shiftBy
  split
  next => exact ⟨Nat.mul_pos proper.num (Nat.pow_pos hb), proper.den⟩
  next => exact ⟨proper.num, Nat.mul_pos proper.den (Nat.pow_pos hb)⟩

/-- The value lies between its floor and the next natural number. -/
theorem Proper.floor_le (proper : v.Proper) : (v.floor : ℚ) ≤ v.value := by
  unfold floor value
  rw [le_div_iff₀ (Nat.cast_pos.mpr proper.den)]
  exact_mod_cast Nat.div_mul_le_self v.num v.den

/-- The value is below the next natural number. -/
theorem Proper.lt_floor_add_one (proper : v.Proper) : v.value < v.floor + 1 := by
  unfold floor value
  rw [div_lt_iff₀ (Nat.cast_pos.mpr proper.den)]
  exact_mod_cast Nat.lt_mul_of_div_lt (Nat.lt_succ_self _) proper.den

end Positive

/-! ## Logarithms -/

variable {v : Positive}

/-- The quotient of the leading powers of two is off by a factor below two. -/
theorem value_between_log2 (proper : v.Proper) :
    (2 : ℚ) ^ ((v.num.log2 : Int) - v.den.log2 - 1) ≤ v.value ∧
      v.value < 2 ^ ((v.num.log2 : Int) - v.den.log2 + 1) := by
  have numLow : (2 : ℚ) ^ v.num.log2 ≤ v.num := by
    exact_mod_cast Nat.log2_self_le (Nat.ne_of_gt proper.num)
  have numHigh : (v.num : ℚ) < 2 ^ (v.num.log2 + 1) := by
    exact_mod_cast @Nat.lt_log2_self v.num
  have denLow : (2 : ℚ) ^ v.den.log2 ≤ v.den := by
    exact_mod_cast Nat.log2_self_le (Nat.ne_of_gt proper.den)
  have denHigh : (v.den : ℚ) < 2 ^ (v.den.log2 + 1) := by
    exact_mod_cast @Nat.lt_log2_self v.den
  have den : (0 : ℚ) < v.den := Nat.cast_pos.mpr proper.den
  unfold Positive.value
  constructor
  · rw [le_div_iff₀ den]
    calc (2 : ℚ) ^ ((v.num.log2 : Int) - v.den.log2 - 1) * v.den
        ≤ 2 ^ ((v.num.log2 : Int) - v.den.log2 - 1) * 2 ^ (v.den.log2 + 1) := by gcongr
      _ = 2 ^ v.num.log2 := by
        rw [← zpow_natCast, ← zpow_natCast, ← zpow_add₀ two_ne_zero]
        congr 1
        push_cast
        omega
      _ ≤ v.num := numLow
  · rw [div_lt_iff₀ den]
    calc (v.num : ℚ) < 2 ^ (v.num.log2 + 1) := numHigh
      _ = 2 ^ ((v.num.log2 : Int) - v.den.log2 + 1) * 2 ^ v.den.log2 := by
        rw [← zpow_natCast, ← zpow_natCast, ← zpow_add₀ two_ne_zero]
        congr 1
        push_cast
        omega
      _ ≤ 2 ^ ((v.num.log2 : Int) - v.den.log2 + 1) * v.den := by gcongr

/-- Comparing the parts of a scaled quotient compares the value with a power. -/
theorem Positive.Proper.shiftBy_lt_iff (proper : v.Proper) (k : Int) :
    (v.shiftBy 2 k).num < (v.shiftBy 2 k).den ↔ v.value < 2 ^ k := by
  have scaled := proper.shiftBy two_pos k
  have less : (v.shiftBy 2 k).num < (v.shiftBy 2 k).den ↔ (v.shiftBy 2 k).value < 1 := by
    unfold Positive.value
    rw [div_lt_one₀ (Nat.cast_pos.mpr scaled.den), Nat.cast_lt]
  rw [less, Positive.value_shiftBy, Nat.cast_ofNat, div_lt_one₀ (zpow_pos two_pos k)]

/-- `floorLog2` is the exponent of the leading binary digit. -/
theorem floorLog2_spec (proper : v.Proper) :
    (2 : ℚ) ^ floorLog2 v ≤ v.value ∧ v.value < 2 ^ (floorLog2 v + 1) := by
  obtain ⟨low, high⟩ := value_between_log2 proper
  have eq : floorLog2 v = if v.value < 2 ^ ((v.num.log2 : Int) - v.den.log2) then
      (v.num.log2 : Int) - v.den.log2 - 1 else (v.num.log2 : Int) - v.den.log2 := by
    simp only [← proper.shiftBy_lt_iff]
    unfold floorLog2 Positive.shiftBy
    by_cases nonneg : (0 : Int) ≤ (v.num.log2 : Int) - v.den.log2
    · simp only [if_pos nonneg, if_neg (Int.not_lt.mpr nonneg)]
    · simp only [if_neg nonneg, if_pos (Int.not_le.mp nonneg)]
  rw [eq]
  split
  next small =>
    rw [Int.sub_add_cancel]
    exact ⟨low, small⟩
  next large => exact ⟨le_of_not_gt large, high⟩

theorem lt_ten_pow_digitCount (n : Nat) : n < 10 ^ digitCount n :=
  (Nat.length_toDigits_le_iff (by decide) Nat.length_toDigits_pos).mp le_rfl

theorem ten_pow_le_of_pos {n : Nat} (positive : 0 < n) : 10 ^ (digitCount n - 1) ≤ n := by
  by_contra less
  have short : 0 < digitCount n - 1 := by
    refine Nat.pos_of_ne_zero fun zero => less ?_
    rw [zero]
    exact positive
  have := (Nat.length_toDigits_le_iff (by decide) short).mpr (Nat.lt_of_not_le less)
  have : digitCount n ≤ digitCount n - 1 := this
  omega

/-- `floorLog10` is the exponent of the leading decimal digit. -/
theorem floorLog10_spec (proper : v.Proper) (large : 1 ≤ v.value * 10 ^ liftExponent) :
    (10 : ℚ) ^ floorLog10 v ≤ v.value ∧ v.value < 10 ^ (floorLog10 v + 1) := by
  have lifted := proper.shiftBy (b := 10) (by decide) (-liftExponent)
  have value : (v.shiftBy 10 (-liftExponent)).value = v.value * 10 ^ liftExponent := by
    rw [Positive.value_shiftBy, zpow_neg, zpow_natCast, div_inv_eq_mul, Nat.cast_ofNat]
  have low := lifted.floor_le
  have high := lifted.lt_floor_add_one
  rw [value] at low high
  unfold floorLog10
  rw [Positive.shift_eq_shiftBy]
  generalize (v.shiftBy 10 (-liftExponent)).floor = n at low high ⊢
  have positive : 0 < n := by
    have : (0 : ℚ) < n := by linarith
    exact_mod_cast this
  have power : (0 : ℚ) < 10 ^ liftExponent := by positivity
  have digits : (10 : ℚ) ^ (digitCount n - 1) ≤ n := by exact_mod_cast ten_pow_le_of_pos positive
  have next : (n : ℚ) + 1 ≤ 10 ^ digitCount n := by exact_mod_cast lt_ten_pow_digitCount n
  have count : 0 < digitCount n := Nat.length_toDigits_pos
  constructor
  -- both sides are lifted until the value is at least one, where digits can be counted
  · refine le_of_mul_le_mul_right ?_ power
    calc (10 : ℚ) ^ ((digitCount n : Int) - 1 - liftExponent) * 10 ^ liftExponent
        = 10 ^ (digitCount n - 1) := by
          rw [← zpow_natCast, ← zpow_natCast, ← zpow_add₀ (by norm_num)]
          congr 1
          omega
      _ ≤ v.value * 10 ^ liftExponent := digits.trans low
  · refine lt_of_mul_lt_mul_right ?_ power.le
    calc v.value * 10 ^ liftExponent < 10 ^ digitCount n := high.trans_le next
      _ = 10 ^ ((digitCount n : Int) - 1 - liftExponent + 1) * 10 ^ liftExponent := by
          rw [← zpow_natCast, ← zpow_natCast, ← zpow_add₀ (by norm_num)]
          congr 1
          omega

/-! ## Rounding -/

/-- What is nearest is what is rounded to. -/
theorem roundHalfEven_eq_of_nat {num den m : Nat} (positive : 0 < den)
    (low : 2 * m * den ≤ 2 * num + den) (high : 2 * num ≤ (2 * m + 1) * den)
    (tie : 2 * num + den = 2 * m * den ∨ 2 * num = (2 * m + 1) * den → m % 2 = 0) :
    roundHalfEven ⟨num, den⟩ = m := by
  have parts : num = den * (num / den) + num % den := (Nat.div_add_mod num den).symm
  have less : num % den < den := Nat.mod_lt num positive
  unfold roundHalfEven
  dsimp only
  -- the quotient and the remainder as numbers of their own, for the arithmetic below
  generalize num / den = d at *
  generalize num % den = r at *
  subst parts
  have below : d ≤ m := by
    have : 2 * d * den < (2 * m + 2) * den := by
      calc 2 * d * den ≤ 2 * (den * d + r) := by linarith
        _ ≤ (2 * m + 1) * den := high
        _ < (2 * m + 2) * den := by nlinarith
    have := Nat.lt_of_mul_lt_mul_right this
    omega
  have above : m ≤ d + 1 := by
    have : 2 * m * den < (2 * d + 3) * den := by
      calc 2 * m * den ≤ 2 * (den * d + r) + den := low
        _ < (2 * d + 3) * den := by linarith
    have := Nat.lt_of_mul_lt_mul_right this
    omega
  rcases Nat.lt_or_eq_of_le below with next | rfl
  -- rounding up needs half a unit, and an even number at a tie
  · obtain rfl : m = d + 1 := by omega
    have half : den ≤ 2 * r := by linarith
    rw [if_neg (by omega)]
    split
    next => rfl
    next equal =>
      have := tie (Or.inl (by linarith))
      rw [if_neg (by omega)]
  · have half : 2 * r ≤ den := by linarith
    split
    next => rfl
    next equal =>
      have := tie (Or.inr (by linarith))
      rw [if_neg (by omega), if_pos this]

/-- A value within half of a natural number is rounded to it. -/
theorem roundHalfEven_eq {m : Nat} (proper : v.Proper) (lower : (m : ℚ) - 1 / 2 ≤ v.value)
    (upper : v.value ≤ m + 1 / 2)
    (tie : v.value = m - 1 / 2 ∨ v.value = m + 1 / 2 → m % 2 = 0) : roundHalfEven v = m := by
  obtain ⟨num, den⟩ := v
  have positive : (0 : ℚ) < den := Nat.cast_pos.mpr proper.den
  unfold Positive.value at lower upper tie
  dsimp only at lower upper tie
  rw [le_div_iff₀ positive] at lower
  rw [div_le_iff₀ positive] at upper
  refine roundHalfEven_eq_of_nat proper.den ?_ ?_ fun equal => tie ?_
  · have : ((2 * m * den : Nat) : ℚ) ≤ (2 * num + den : Nat) := by push_cast; linarith
    exact_mod_cast this
  · have : ((2 * num : Nat) : ℚ) ≤ ((2 * m + 1) * den : Nat) := by push_cast; linarith
    exact_mod_cast this
  · rw [div_eq_iff positive.ne', div_eq_iff positive.ne']
    rcases equal with equal | equal
    · have : ((2 * num + den : Nat) : ℚ) = (2 * m * den : Nat) := congrArg _ equal
      push_cast at this
      exact Or.inl (by linarith)
    · have : ((2 * num : Nat) : ℚ) = ((2 * m + 1) * den : Nat) := congrArg _ equal
      push_cast at this
      exact Or.inr (by linarith)

/-- Rounding moves a value by half at most, upwards. -/
theorem Positive.Proper.roundHalfEven_le (proper : v.Proper) :
    (roundHalfEven v : ℚ) ≤ v.value + 1 / 2 := by
  have positive : (0 : ℚ) < v.den := Nat.cast_pos.mpr proper.den
  have rounded : 2 * (roundHalfEven v * v.den) ≤ 2 * v.num + v.den := by
    have parts := Nat.div_add_mod v.num v.den
    unfold roundHalfEven
    dsimp only
    generalize v.num / v.den = d at *
    generalize v.num % v.den = r at *
    split
    next => linarith
    next half =>
      have up : 2 * ((d + 1) * v.den) ≤ 2 * v.num + v.den := by linarith
      split
      next => exact up
      next =>
        split
        next => linarith
        next => exact up
  unfold Positive.value
  rw [← sub_le_iff_le_add, le_div_iff₀ positive, sub_mul]
  have : ((2 * (roundHalfEven v * v.den) : Nat) : ℚ) ≤ (2 * v.num + v.den : Nat) := by
    exact_mod_cast rounded
  push_cast at this
  linarith

/-- A natural number below a value is not above it when it is rounded. -/
theorem Positive.Proper.le_roundHalfEven (proper : v.Proper) {n : Nat} (low : (n : ℚ) ≤ v.value) :
    n ≤ roundHalfEven v := by
  unfold Positive.value at low
  rw [le_div_iff₀ (Nat.cast_pos.mpr proper.den)] at low
  have floor : n ≤ v.num / v.den := by
    rw [Nat.le_div_iff_mul_le proper.den]
    exact_mod_cast low
  refine floor.trans ?_
  unfold roundHalfEven
  dsimp only
  split
  next => exact le_rfl
  next =>
    split
    next => exact Nat.le_succ _
    next =>
      split
      next => exact le_rfl
      next => exact Nat.le_succ _

/-! ## Intervals -/

/-- The rational numbers of an interval whose ends count multiples of `2^(q-2)`. -/
def Interval.Has (i : Interval) (q : Int) (x : ℚ) : Prop :=
  if i.closed then i.low * 2 ^ (q - 2) ≤ x ∧ x ≤ i.high * 2 ^ (q - 2)
  else i.low * 2 ^ (q - 2) < x ∧ x < i.high * 2 ^ (q - 2)

/-- The numerator of a power with an integer exponent. -/
def powerNum (b : Nat) (e : Int) : Nat := if e < 0 then 1 else Nat.pow b e.natAbs

/-- The denominator of a power with an integer exponent. -/
def powerDen (b : Nat) (e : Int) : Nat := if e < 0 then Nat.pow b e.natAbs else 1

theorem powerDen_pos {b : Nat} (hb : 0 < b) (e : Int) : 0 < powerDen b e := by
  unfold powerDen
  split
  next => exact Nat.pow_pos hb
  next => exact Nat.one_pos

/-- A power is the quotient of its two parts. -/
theorem zpow_eq_div (b : Nat) (e : Int) : (b : ℚ) ^ e = powerNum b e / powerDen b e := by
  unfold powerNum powerDen
  split
  next negative => rw [zpow_of_neg negative, Nat.cast_one, one_div, Nat.pow_eq, Nat.cast_pow]
  next nonneg => rw [zpow_of_nonneg nonneg, Nat.cast_one, div_one, Nat.pow_eq, Nat.cast_pow]

/-- A comparison of quotients of natural numbers, without the quotients. -/
theorem mul_div_le_iff {x y a b c d : Nat} (hb : 0 < b) (hd : 0 < d) :
    ((x : ℚ) * (a / b) ≤ y * (c / d) ↔ x * (d * a) ≤ y * c * b) ∧
      ((y : ℚ) * (c / d) ≤ x * (a / b) ↔ y * c * b ≤ x * (d * a)) := by
  have hb' : (0 : ℚ) < b := Nat.cast_pos.mpr hb
  have hd' : (0 : ℚ) < d := Nat.cast_pos.mpr hd
  have left : ((x * (d * a) : Nat) : ℚ) = x * a * d := by push_cast; ring
  have right : ((y * c * b : Nat) : ℚ) = y * c * b := by push_cast; ring
  rw [← mul_div_assoc, ← mul_div_assoc, div_le_div_iff₀ hb' hd', div_le_div_iff₀ hd' hb', ← left,
    ← right, Nat.cast_le, Nat.cast_le]
  exact ⟨Iff.rfl, Iff.rfl⟩

/-- The test of an interval is membership. -/
theorem Interval.contains_iff {i : Interval} {q k : Int} {d : Nat} :
    i.contains q d k = true ↔ i.Has q (d * 10 ^ k) := by
  have compare (z : Nat) := mul_div_le_iff (x := z) (y := d) (a := powerNum 2 (q - 2))
    (c := powerNum 10 k) (powerDen_pos two_pos (q - 2)) (powerDen_pos (b := 10) (by decide) k)
  have ten := zpow_eq_div 10 k
  have two := zpow_eq_div 2 (q - 2)
  rw [Nat.cast_ofNat] at ten two
  unfold Has
  rw [ten, two, ← not_le, ← not_le, (compare i.low).1, (compare i.low).2, (compare i.high).1,
    (compare i.high).2, not_le, not_le]
  show (if i.closed then
      decide (i.low * (powerDen 10 k * powerNum 2 (q - 2)) ≤
        d * powerNum 10 k * powerDen 2 (q - 2)) &&
      decide (d * powerNum 10 k * powerDen 2 (q - 2) ≤
        i.high * (powerDen 10 k * powerNum 2 (q - 2)))
    else
      decide (i.low * (powerDen 10 k * powerNum 2 (q - 2)) <
        d * powerNum 10 k * powerDen 2 (q - 2)) &&
      decide (d * powerNum 10 k * powerDen 2 (q - 2) <
        i.high * (powerDen 10 k * powerNum 2 (q - 2)))) = true ↔ _
  split <;> rw [Bool.and_eq_true, decide_eq_true_iff, decide_eq_true_iff]

end SketchSolver.Decimal
