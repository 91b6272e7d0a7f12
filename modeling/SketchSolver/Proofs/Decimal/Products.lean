import SketchSolver.Proofs.Decimal.Nearest

/-!
# Products that stay in range

A product of two doubles is rounded to the nearest one, and becomes infinite only where no
finite double is near. What decimals need of this is that a product below the largest double
is finite (`isFinite_mul`), and so is a decimal that is read as a product of two doubles and
lies a few places below it (`isFinite_nearest_mul`).

Rounding drops the last binary digits and then adds one at most (`roundedMantissa_le`); if
that carries, the exponent grows by one. So what is rounded with the largest exponent must
leave room for the carry, and with any smaller exponent it may carry.

Multiplication unpacks both factors, multiplies their significands as natural numbers, adds
the exponents and packs the rounded result. Only packing can make it infinite, and it does so
when the exponent is above the largest one. The proof is thus about one number, the exact
product, and about how many digits are dropped from it (`shiftToTargetExponent_eq`).

The reader of numbers has one product and two roundings before it, that of the significand
and that of the power of ten. Each adds half a place at most to its factor, relative to the
factor, and this is where the few places come from that a decimal must stay below the largest
double. Decimals that are nearer to it are not covered by the general statement.
-/

namespace SketchSolver.Decimal

open Float.Model (Format UnpackedFloat totalExponent)
open Float.Model.UnpackedFloat

/-! ## Rounding -/

theorem mantissa_shiftRight (em : ExtendedMantissa) (k : Nat) :
    (em >>> k).mantissa = em.mantissa / 2 ^ k := by
  induction k with
  | zero => exact (Nat.div_one _).symm
  | succ k ih =>
    show (em >>> k).mantissa / 2 = _
    rw [ih, Nat.div_div_eq_div_mul, Nat.pow_succ]

theorem roundedMantissa_le (em : ExtendedMantissa) : em.roundedMantissa ≤ em.mantissa + 1 := by
  obtain ⟨m, round, sticky⟩ := em
  cases round <;> cases sticky
  · exact Nat.le_succ m
  · exact Nat.le_succ m
  · exact Nat.add_le_add_left (Nat.lt_succ_iff.mp (Nat.mod_lt m two_pos)) m
  · exact le_rfl

/-- A number below a power of two has a smaller exponent. -/
theorem log2_le_of_lt {n k : Nat} (less : n < 2 ^ (k + 1)) : n.log2 ≤ k := by
  rcases Nat.eq_zero_or_pos n with rfl | positive
  · exact Nat.zero_le k
  · exact Nat.lt_succ_iff.mp ((Nat.log2_lt (Nat.ne_of_gt positive)).mpr less)

/-- The exponent that a significand is brought to, and the significand then. -/
theorem shiftToTargetExponent_eq (m : Nat) (e : Int) :
    let k := (max ((m.log2 : Int) + e - 52) (-1074) - e).toNat
    (shiftToTargetExponent Format.binary64 m e .exact).2 = e + k ∧
      (shiftToTargetExponent Format.binary64 m e .exact).1.mantissa = m / 2 ^ k := by
  have target : Format.binary64.targetExponent (totalExponent m e) =
      max ((m.log2 : Int) + e - 52) (-1074) := by
    show max ((m.log2 : Int) + 1 + e - (1 + 52 : Nat)) (3 - 2 ^ 10 - (1 + 52 : Nat)) = _
    omega
  unfold shiftToTargetExponent shiftToExponent
  rw [target]
  exact ⟨rfl, mantissa_shiftRight _ _⟩

/-- A value below the largest double is rounded to a significand that fits the exponents. -/
theorem roundWithAccuracy_cases {s : Sign} {m : Nat} {e : Int} (low : e ≤ 971)
    (small : m < (2 ^ 53 - 1) * 2 ^ (971 - e).toNat) :
    roundWithAccuracy Format.binary64 s m e .exact = .zero s ∨
      ∃ m' e' positive, e' ≤ 971 ∧
        roundWithAccuracy Format.binary64 s m e .exact = .finite s m' e' positive := by
  obtain ⟨exponent, mantissa⟩ := shiftToTargetExponent_eq m e
  set k := (max ((m.log2 : Int) + e - 52) (-1074) - e).toNat with shift
  set first := shiftToTargetExponent Format.binary64 m e .exact
  have rounded := roundedMantissa_le first.1
  rw [mantissa] at rounded
  set r := first.1.roundedMantissa
  have room : m.log2 ≤ 52 + (971 - e).toNat := by
    refine log2_le_of_lt (small.trans_le ?_)
    rw [show 52 + (971 - e).toNat + 1 = 53 + (971 - e).toNat by omega, pow_add]
    exact Nat.mul_le_mul_right _ (by decide)
  -- fifty-three digits are kept, and with the last exponent they are not all ones
  have kept : m / 2 ^ k < 2 ^ 53 := by
    rw [Nat.div_lt_iff_lt_mul (Nat.two_pow_pos k), ← pow_add]
    exact Nat.lt_log2_self.trans_le (Nat.pow_le_pow_right two_pos (by omega))
  have keptLast : k = (971 - e).toNat → m / 2 ^ k < 2 ^ 53 - 1 := by
    intro last
    rwa [Nat.div_lt_iff_lt_mul (Nat.two_pow_pos k), last]
  have digits : r.log2 ≤ 53 := log2_le_of_lt (by omega)
  have digitsLast : k = (971 - e).toNat → r.log2 ≤ 52 := fun last =>
    log2_le_of_lt (by have := keptLast last; omega)
  obtain ⟨last, -⟩ := shiftToTargetExponent_eq r first.2
  have bound : (shiftToTargetExponent Format.binary64 r first.2 .exact).2 ≤ 971 := by
    rw [last, exponent]
    omega
  unfold roundWithAccuracy
  dsimp only
  split
  next => exact Or.inl rfl
  next positive => exact Or.inr ⟨_, _, Nat.pos_of_ne_zero positive, bound, rfl⟩

/-! ## Products -/

/-- A significand with an exponent in range is packed into a finite bit pattern. -/
theorem pack_eq {s : Sign} {m : Nat} {e : Int} {positive : 0 < m} (bound : e ≤ 971) :
    ∃ exponent mantissa, pack Format.binary64 (.finite s m e positive) =
      packComponents Format.binary64 s exponent mantissa ∧ exponent.toNat < 2047 := by
  have bias : (Format.binary64.exponentBias : Int) = 1023 := rfl
  unfold pack
  dsimp only
  rw [bias, if_neg (by omega)]
  split
  next =>
    refine ⟨_, _, rfl, ?_⟩
    rw [BitVec.toNat_ofNat]
    omega
  next => exact ⟨_, _, rfl, by decide⟩

/-- What has an exponent in range is packed as a finite double. -/
theorem isFinite_pack {s : Sign} {m : Nat} {e : Int} {positive : 0 < m} (bound : e ≤ 971) :
    (Float.ofModel (.pack (.finite s m e positive))).isFinite = true := by
  obtain ⟨exponent, mantissa, packed, small⟩ : ∃ exponent mantissa,
      pack Format.binary64 (.finite s m e positive) =
        packComponents Format.binary64 s exponent mantissa ∧ exponent.toNat < 2047 := pack_eq bound
  have fraction : mantissa.toNat < 2 ^ 52 := mantissa.isLt
  rw [isFinite_iff]
  show (pack Format.binary64 (.finite s m e positive)).toNat / 2 ^ 52 % 2048 ≠ 2047
  rw [packed, toNat_packComponents]
  omega

variable {x y : Float} {s t : Sign} {m n : Nat} {p q : Int} {hm : 0 < m} {hn : 0 < n}

/-- A product is what packing makes of the product of the parts. -/
theorem mul_eq : x * y = .ofModel (.pack (mul Format.binary64
    (unpack Format.binary64 x.toBits.toBitVec) (unpack Format.binary64 y.toBits.toBitVec))) := rfl

/-- **The product of two doubles is finite below the largest double.** -/
theorem isFinite_mul (left : unpack Format.binary64 x.toBits.toBitVec = .finite s m p hm)
    (right : unpack Format.binary64 y.toBits.toBitVec = .finite t n q hn) (low : p + q ≤ 971)
    (small : m * n < (2 ^ 53 - 1) * 2 ^ (971 - (p + q)).toNat) : (x * y).isFinite = true := by
  rw [mul_eq, left, right]
  unfold mul
  dsimp only
  rcases roundWithAccuracy_cases (s := s * t) low small with zero | ⟨_, _, _, bound, finite⟩
  · rw [zero]
    cases s <;> cases t <;> rfl
  · rw [finite]
    exact isFinite_pack bound

/-! ## Exact values -/

/-- A double unpacks to its exact value. -/
theorem unpack_of_finite {negative : Bool} (value : Binary.ofFloat x = .finite negative m p) :
    ∃ s hm, unpack Format.binary64 x.toBits.toBitVec = .finite s m p hm := by
  have exponent : (@unpackExponent Format.binary64 x.toBits.toBitVec).toNat =
    x.toBits.toNat / 2 ^ 52 % 2048 := toNat_unpackExponent _
  have mantissa : (@unpackMantissa Format.binary64 x.toBits.toBitVec).toNat =
    x.toBits.toNat % 2 ^ 52 := toNat_unpackMantissa _
  have positive := (toBits_of_finite value).1.positive
  have bias : ((Format.binary64.exponentBias : Int) + (52 : Nat)) = 1075 := rfl
  refine ⟨Sign.ofBitVec (@unpackSign Format.binary64 x.toBits.toBitVec), positive, ?_⟩
  -- the two definitions look at the same fields in the same order, so their cases correspond
  rw [ofFloat_eq rfl] at value
  unfold unpack
  dsimp only
  split at value
  next => split at value <;> cases value
  next notOnes =>
    rw [if_neg fun ones => notOnes (exponent.symm.trans (by rw [ones]; rfl))]
    split at value
    next zero =>
      have none : @unpackExponent Format.binary64 x.toBits.toBitVec = 0#11 :=
        BitVec.eq_of_toNat_eq (exponent.trans zero)
      rw [if_pos none]
      split at value
      next => cases value
      next some =>
        cases value
        rw [dif_neg fun empty => some (mantissa.symm.trans (by rw [empty]; rfl))]
        simp only [finite.injEq, true_and]
        refine ⟨mantissa, ?_⟩
        unfold minExponent
        omega
    next nonzero =>
      cases value
      rw [if_neg fun none => nonzero (exponent.symm.trans (by rw [none]; rfl))]
      simp only [finite.injEq, true_and]
      rw [toNat_append_one, mantissa]
      refine ⟨rfl, ?_⟩
      unfold minExponent
      omega

/-- Below the largest double a significand of more than fifty-three binary digits has an exponent in
range. -/
theorem exponent_le_of_lt {n : Nat} {e : Int} (normal : 2 ^ 53 ≤ n)
    (small : (n : ℚ) * 2 ^ e < (2 ^ 53 - 1) * 2 ^ (971 : Int)) :
    e ≤ 971 ∧ n < (2 ^ 53 - 1) * 2 ^ (971 - e).toNat := by
  have exponent : e ≤ 971 := by
    have significand : (2 : ℚ) ^ (53 : Int) ≤ n := by exact_mod_cast normal
    have : (2 : ℚ) ^ (53 + e) < 2 ^ (1024 : Int) := by
      calc (2 : ℚ) ^ (53 + e) = 2 ^ (53 : Int) * 2 ^ e := zpow_add₀ two_ne_zero _ _
        _ ≤ n * 2 ^ e := by gcongr
        _ < 2 ^ (1024 : Int) := small.trans largest_lt_two_pow
    have := lt_of_zpow_lt this
    omega
  refine ⟨exponent, ?_⟩
  have split : (2 : ℚ) ^ (971 : Int) = 2 ^ (971 - e).toNat * 2 ^ e := by
    rw [← zpow_natCast, ← zpow_add₀ two_ne_zero]
    congr 1
    omega
  have ones : ((2 ^ 53 - 1 : Nat) : ℚ) = 2 ^ 53 - 1 := by norm_num
  rw [split, ← mul_assoc, ← ones] at small
  exact_mod_cast lt_of_mul_lt_mul_right small (zpow_pos two_pos _).le

/-- What lies so far below the largest double that two roundings upwards do not reach it. -/
theorem isFinite_nearest_mul {n : Nat} {e : Int} (positive : 0 < n) (nonneg : 0 ≤ e)
    (small : (n : ℚ) * 10 ^ e ≤ (2 ^ 53 - 7 / 2) * 2 ^ (971 : Int)) :
    (nearest n 0 * nearest 1 e).isFinite = true := by
  have one : (1 : ℚ) ≤ n := by exact_mod_cast positive
  have power : (1 : ℚ) ≤ 10 ^ e := one_le_zpow₀ (by norm_num) nonneg
  have less : (n : ℚ) * 10 ^ e < (2 ^ 53 - 1) * 2 ^ (971 : Int) :=
    small.trans_lt (by gcongr; norm_num)
  have zero : (10 : ℚ) ^ (0 : Int) = 1 := zpow_zero _
  obtain ⟨m, p, left, normal, above⟩ := ofFloat_nearest (n := n) (e := 0)
    (by rwa [zero, mul_one])
    (by rw [zero]; exact (mul_le_mul_of_nonneg_left power (by linarith)).trans_lt less)
  obtain ⟨k, q, right, normal', above'⟩ := ofFloat_nearest (n := 1) (e := e)
    (by rwa [Nat.cast_one, one_mul])
    (by rw [Nat.cast_one]; exact (mul_le_mul_of_nonneg_right one (by linarith)).trans_lt less)
  rw [zero, mul_one] at above
  rw [Nat.cast_one, one_mul] at above'
  have product : ((m * k : Nat) : ℚ) * 2 ^ (p + q) < (2 ^ 53 - 1) * 2 ^ (971 : Int) := by
    have place : (0 : ℚ) ≤ k * 2 ^ q := by positivity
    calc ((m * k : Nat) : ℚ) * 2 ^ (p + q) = m * 2 ^ p * (k * 2 ^ q) := by
          rw [zpow_add₀ two_ne_zero]
          push_cast
          ring
      _ ≤ n * (1 + 2 ^ (-53 : Int)) * (10 ^ e * (1 + 2 ^ (-53 : Int))) := by gcongr
      _ = n * 10 ^ e * ((1 + 2 ^ (-53 : Int)) * (1 + 2 ^ (-53 : Int))) := by ring
      _ ≤ (2 ^ 53 - 7 / 2) * 2 ^ (971 : Int) * ((1 + 2 ^ (-53 : Int)) * (1 + 2 ^ (-53 : Int))) := by
        gcongr
      _ = (2 ^ 53 - 7 / 2) * ((1 + 2 ^ (-53 : Int)) * (1 + 2 ^ (-53 : Int))) * 2 ^ (971 : Int) := by
        ring
      _ < (2 ^ 53 - 1) * 2 ^ (971 : Int) := by gcongr; norm_num
  have wide : 2 ^ 53 ≤ m * k := le_trans (by decide) (Nat.mul_le_mul normal normal')
  obtain ⟨exponent, digits⟩ := exponent_le_of_lt wide product
  obtain ⟨_, _, left⟩ := unpack_of_finite left
  obtain ⟨_, _, right⟩ := unpack_of_finite right
  exact isFinite_mul left right exponent digits

end SketchSolver.Decimal
