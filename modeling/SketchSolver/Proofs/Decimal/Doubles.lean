import Mathlib
import SketchSolver.Decimal.Binary

/-!
# Doubles and their bits

A finite double that is not zero is `± m · 2^q` for a `Canonical` pair, and its bits count the
doubles of its sign: they are `(q + 1074) · 2^52 + m` above the sign bit (`toBits_of_finite`).
The bits determine the double (`ofBits_toBits`).

Negation turns the sign bit (`toBits_neg`), which is set for the `Signed` doubles: those below
zero and the negative zero (`signed_iff`).

Operations on doubles are defined by unpacking their bits into a sign, an exponent and a
significand, computing with these, and packing the result. What this module does is to go
through packing and unpacking once, so that the others can speak of numbers. A bit pattern is
either not a number, infinite, a zero or the packing of a canonical pair, and the four cases
are told by the exponent field and the significand field (`unpack_cases`).

A pair is canonical if its significand has the full number of bits, or as many as there are
when the exponent is the least one possible. Every finite double that is not zero has one such
pair, and the formula for its bits holds for both sorts alike, because the hidden bit of a
normal double carries into the exponent field. That is also why doubles of one sign are
ordered like their bits, and the next double has the next pattern.

`Binary.ofFloat` is what texts are computed from. Here it is shown to be the exact value, for
all doubles, from the bits.
-/

namespace SketchSolver.Decimal

open Float.Model (Format UnpackedFloat)
open Float.Model.UnpackedFloat

/-! ## Components -/

section Components

variable (b : BitVec 64)

theorem toNat_packComponents (s : Sign) (e : BitVec 11) (m : BitVec 52) :
    (packComponents Format.binary64 s e m).toNat =
      s.toBitVec.toNat * 2 ^ 63 + e.toNat * 2 ^ 52 + m.toNat := by
  unfold packComponents
  rw [BitVec.toNat_append, ← Nat.shiftLeft_add_eq_or_of_lt m.isLt, BitVec.toNat_append,
    ← Nat.shiftLeft_add_eq_or_of_lt e.isLt, Nat.shiftLeft_eq, Nat.shiftLeft_eq]
  show (s.toBitVec.toNat * 2 ^ 11 + e.toNat) * 2 ^ 52 + m.toNat = _
  omega

theorem toNat_unpackMantissa : (@unpackMantissa Format.binary64 b).toNat = b.toNat % 2 ^ 52 := by
  simp [unpackMantissa]

theorem toNat_unpackExponent :
    (@unpackExponent Format.binary64 b).toNat = b.toNat / 2 ^ 52 % 2 ^ 11 := by
  simp [unpackExponent, Nat.shiftRight_eq_div_pow]

theorem toNat_unpackSign : (@unpackSign Format.binary64 b).toNat = b.toNat / 2 ^ 63 := by
  have : b.toNat < 2 ^ 64 := b.isLt
  simp only [unpackSign, BitVec.toNat_cast, BitVec.extractLsb_toNat, Nat.shiftRight_eq_div_pow]
  show b.toNat / 2 ^ 63 % 2 ^ 1 = b.toNat / 2 ^ 63
  omega

theorem toBitVec_ofBitVec (v : BitVec 1) : (Sign.ofBitVec v).toBitVec = v := by
  revert v
  decide

/-- The components of a bit pattern make it up. -/
theorem packComponents_unpack :
    packComponents Format.binary64 (Sign.ofBitVec (@unpackSign Format.binary64 b))
      (@unpackExponent Format.binary64 b) (@unpackMantissa Format.binary64 b) = b := by
  have : b.toNat < 2 ^ 64 := b.isLt
  apply BitVec.eq_of_toNat_eq
  rw [toNat_packComponents, toBitVec_ofBitVec, toNat_unpackSign, toNat_unpackExponent,
    toNat_unpackMantissa]
  omega

end Components

/-! ## Packing -/

section Packing

variable (s : Sign) {e : BitVec 11} (m : BitVec 52)

/-- The hidden bit is worth a full significand. -/
theorem toNat_append_one : (1#1 ++ m).toNat = 2 ^ 52 + m.toNat := by
  rw [BitVec.toNat_append, ← Nat.shiftLeft_add_eq_or_of_lt m.isLt]
  rfl

/-- A normal number is packed into its components. -/
theorem pack_normal (notOnes : e ≠ -1#11) (positive : 0 < (1#1 ++ m).toNat) :
    pack Format.binary64 (.finite s (1#1 ++ m).toNat
      ((e.toNat : Int) - (Format.binary64.exponentBias + 52)) positive) =
      packComponents Format.binary64 s e m := by
  have bound : e.toNat < 2 ^ 11 := e.isLt
  have ones : e.toNat ≠ 2047 := fun eq => notOnes (BitVec.eq_of_toNat_eq eq)
  have small : m.toNat < 2 ^ 52 := m.isLt
  have biased : ((e.toNat : Int) - (Format.binary64.exponentBias + 52) +
      Format.binary64.exponentBias + Format.binary64.mantissaBitsWithoutImplicit).toNat =
      e.toNat := by
    show ((e.toNat : Int) - (1023 + 52) + 1023 + 52).toNat = e.toNat
    omega
  have log : (1#1 ++ m).toNat.log2 + 1 = Format.binary64.mantissaBits := by
    rw [toNat_append_one, (Nat.log2_eq_iff (k := 52) (by omega)).mpr ⟨by omega, by omega⟩]
    rfl
  unfold pack
  dsimp only
  rw [biased, if_neg (show ¬2 ^ 11 ≤ e.toNat + 1 by omega), if_pos log]
  congr 1
  · exact BitVec.eq_of_toNat_eq (by simp)
  · apply BitVec.eq_of_toNat_eq
    rw [toNat_append_one, BitVec.toNat_ofNat, Nat.add_mod_left, Nat.mod_eq_of_lt small]

/-- A subnormal number is packed into its components. -/
theorem pack_subnormal (zero : e = 0#11) (positive : 0 < m.toNat) :
    pack Format.binary64 (.finite s m.toNat
      ((e.toNat : Int) - (Format.binary64.exponentBias + 52) + 1) positive) =
      packComponents Format.binary64 s e m := by
  have small : m.toNat < 2 ^ 52 := m.isLt
  subst zero
  have biased : (((0#11).toNat : Int) - (Format.binary64.exponentBias + 52) + 1 +
      Format.binary64.exponentBias + Format.binary64.mantissaBitsWithoutImplicit).toNat = 1 := rfl
  have log : ¬m.toNat.log2 + 1 = Format.binary64.mantissaBits := by
    have := (Nat.log2_lt (Nat.ne_of_gt positive)).mpr small
    show ¬m.toNat.log2 + 1 = 53
    omega
  unfold pack
  dsimp only
  rw [biased, if_neg (show ¬2 ^ 11 ≤ 1 + 1 by decide), if_neg log]
  congr 1
  exact BitVec.eq_of_toNat_eq (by simp)

end Packing

/-! ## Unpacking -/

/-- The value of a finite bit pattern that is not zero, and what packing it with any sign gives. -/
def Unpacks (b : BitVec 64) (s : Sign) : Prop :=
  ∃ m q positive, unpack Format.binary64 b = .finite s m q positive ∧
    ∀ t, pack Format.binary64 (.finite t m q positive) =
      packComponents Format.binary64 t (@unpackExponent Format.binary64 b)
        (@unpackMantissa Format.binary64 b)

/-- A bit pattern is infinite, no number, zero, or another finite number. -/
theorem unpack_cases (b : BitVec 64) :
    let e := @unpackExponent Format.binary64 b
    let m := @unpackMantissa Format.binary64 b
    let s := Sign.ofBitVec (@unpackSign Format.binary64 b)
    e = -1#11 ∧ m = 0#52 ∧ unpack Format.binary64 b = .infinity s ∨
    e = -1#11 ∧ m ≠ 0#52 ∧ unpack Format.binary64 b = .notANumber ∨
    e = 0#11 ∧ m = 0#52 ∧ unpack Format.binary64 b = .zero s ∨
    e ≠ -1#11 ∧ (e ≠ 0#11 ∨ m ≠ 0#52) ∧ Unpacks b s := by
  intro e m s
  unfold Unpacks unpack
  dsimp only
  split
  next ones =>
    split
    next none => exact Or.inl ⟨ones, none, rfl⟩
    next some => exact Or.inr (Or.inl ⟨ones, some, rfl⟩)
  next other =>
    split
    next zero =>
      split
      next none => exact Or.inr (Or.inr (Or.inl ⟨zero, none, rfl⟩))
      next some =>
        -- a subnormal double has its significand as it is stored
        have positive : 0 < m.toNat :=
          Nat.pos_of_ne_zero fun eq => some (BitVec.eq_of_toNat_eq eq)
        exact Or.inr (Or.inr (Or.inr
          ⟨other, Or.inr some, _, _, positive, rfl, fun t => pack_subnormal t m zero positive⟩))
    next nonzero =>
      -- a normal one has a hidden bit in front
      have positive : 0 < (1#1 ++ m).toNat := by
        rw [toNat_append_one]
        omega
      exact Or.inr (Or.inr (Or.inr
        ⟨other, Or.inl nonzero, _, _, positive, rfl, fun t => pack_normal t m other positive⟩))

/-- **Packing undoes unpacking**, since there is one pattern for what is no number. -/
theorem pack_unpack {b : BitVec 64} (valid : Format.binary64.Valid b) :
    pack Format.binary64 (unpack Format.binary64 b) = b := by
  have parts := packComponents_unpack b
  rcases unpack_cases b with ⟨ones, none, eq⟩ | ⟨ones, some, eq⟩ | ⟨zero, none, eq⟩ |
    ⟨other, nonzero, m, q, positive, eq, packs⟩
  · rw [ones, none] at parts
    rw [eq]
    exact parts
  · rw [eq]
    exact (valid.eq_packedNaN ones some).symm
  · rw [zero, none] at parts
    rw [eq]
    exact parts
  · rw [eq, packs, parts]

/-- **The bits of a double determine it.** -/
theorem ofBits_toBits (x : Float) : Float.ofBits x.toBits = x := by
  obtain ⟨⟨bits, valid⟩⟩ := x
  unfold Float.ofBits Float.toBits Float.Model.ofBits Float.Model.pack
  dsimp only
  congr 2
  exact congrArg UInt64.ofBitVec (pack_unpack valid)

/-- Doubles with the same bits are equal. -/
theorem eq_of_toBits {x y : Float} (eq : x.toBits = y.toBits) : x = y := by
  rw [← ofBits_toBits x, eq, ofBits_toBits]

/-- A bit pattern that is no special one is that of a double. -/
theorem toBits_ofBits {b : UInt64} (finite : b.toNat / 2 ^ 52 % 2048 ≠ 2047) :
    (Float.ofBits b).toBits = b := by
  have valid : Format.binary64.Valid b.toBitVec :=
    ⟨fun ones => absurd ((toNat_unpackExponent b.toBitVec).symm.trans (by rw [ones]; rfl)) finite⟩
  exact congrArg UInt64.ofBitVec (pack_unpack valid)

/-! ## Sign and magnitude -/

/-- A double is finite iff its exponent bits are not all set. -/
theorem isFinite_iff {x : Float} :
    x.isFinite = true ↔ x.toBits.toNat / 2 ^ 52 % 2048 ≠ 2047 := by
  have exponent := toNat_unpackExponent x.toBits.toBitVec
  show (unpack Format.binary64 x.toBits.toBitVec).isFinite = true ↔
    x.toBits.toBitVec.toNat / 2 ^ 52 % 2 ^ 11 ≠ 2047
  rw [← exponent]
  rcases unpack_cases x.toBits.toBitVec with ⟨ones, -, eq⟩ | ⟨ones, -, eq⟩ | ⟨zero, -, eq⟩ |
    ⟨other, -, m, q, positive, eq, -⟩
  · rw [eq, ones]
    exact iff_of_false (by simp [UnpackedFloat.isFinite]) (by decide)
  · rw [eq, ones]
    exact iff_of_false (by simp [UnpackedFloat.isFinite]) (by decide)
  · rw [eq, zero]
    exact iff_of_true rfl (by decide)
  · rw [eq]
    exact iff_of_true rfl fun same => other (BitVec.eq_of_toNat_eq same)

theorem isInf_of_isFinite {x : Float} (finite : x.isFinite = true) : x.isInf = false := by
  change (unpack Format.binary64 x.toBits.toBitVec).isFinite = true at finite
  change (unpack Format.binary64 x.toBits.toBitVec).isInf = false
  generalize unpack Format.binary64 x.toBits.toBitVec = u at finite ⊢
  cases u with
  | infinity => cases finite
  | notANumber | zero | finite => rfl

/-- A finite double is zero, or it unpacks to a number of its sign. -/
theorem finite_cases {x : Float} (finite : x.isFinite = true) :
    let b := x.toBits.toBitVec
    let s := Sign.ofBitVec (@unpackSign Format.binary64 b)
    (@unpackExponent Format.binary64 b = 0#11 ∧ @unpackMantissa Format.binary64 b = 0#52) ∧
      unpack Format.binary64 b = .zero s ∨
    (@unpackExponent Format.binary64 b ≠ 0#11 ∨ @unpackMantissa Format.binary64 b ≠ 0#52) ∧
      Unpacks b s := by
  have other : @unpackExponent Format.binary64 x.toBits.toBitVec ≠ -1#11 := fun ones =>
    isFinite_iff.mp finite ((toNat_unpackExponent _).symm.trans (by rw [ones]; rfl))
  rcases unpack_cases x.toBits.toBitVec with ⟨ones, -⟩ | ⟨ones, -⟩ | ⟨zero, none, eq⟩ |
    ⟨-, nonzero, unpacks⟩
  · exact absurd ones other
  · exact absurd ones other
  · exact Or.inl ⟨⟨zero, none⟩, eq⟩
  · exact Or.inr ⟨nonzero, unpacks⟩

theorem toNat_toBitVec_neg (v : BitVec 1) :
    (-Sign.ofBitVec v).toBitVec.toNat = 1 - v.toNat := by
  revert v
  decide

/-- **Negation turns the sign bit.** -/
theorem toBits_neg {x : Float} (finite : x.isFinite = true) :
    (-x).toBits.toNat = (x.toBits.toNat + 2 ^ 63) % 2 ^ 64 := by
  let b := x.toBits.toBitVec
  have bound : b.toNat < 2 ^ 64 := b.isLt
  have negated : pack Format.binary64 (unpack Format.binary64 b).neg =
      packComponents Format.binary64 (-Sign.ofBitVec (@unpackSign Format.binary64 b))
        (@unpackExponent Format.binary64 b) (@unpackMantissa Format.binary64 b) := by
    rcases finite_cases finite with ⟨⟨zero, none⟩, eq⟩ | ⟨-, m, q, positive, eq, packs⟩
    · rw [eq, zero, none]
      rfl
    · rw [eq]
      exact packs _
  show (pack Format.binary64 (unpack Format.binary64 b).neg).toNat = (b.toNat + 2 ^ 63) % 2 ^ 64
  rw [negated, toNat_packComponents, toNat_toBitVec_neg, toNat_unpackSign, toNat_unpackExponent,
    toNat_unpackMantissa]
  omega

theorem toBits_zero : (0 : Float).toBits.toNat = 0 := by
  rfl

theorem toBits_negZero : (-0 : Float).toBits.toNat = 2 ^ 63 := by
  rfl

/-- A double is compared with zero by what it unpacks to. -/
theorem lt_zero_iff_unpack {x : Float} :
    x < 0 ↔ (unpack Format.binary64 x.toBits.toBitVec).compare (.zero .positive) = some .lt := by
  have zero : unpack Format.binary64 (0 : Float).toBits.toBitVec = .zero .positive := rfl
  rw [← zero]
  show decide (((unpack Format.binary64 x.toBits.toBitVec).compare
    (unpack Format.binary64 (0 : Float).toBits.toBitVec) == some .lt) = true) = true ↔ _
  rw [decide_eq_true_iff, beq_iff_eq]

theorem sign_cases (b : BitVec 64) :
    b.toNat < 2 ^ 63 ∧ Sign.ofBitVec (@unpackSign Format.binary64 b) = .positive ∨
      2 ^ 63 ≤ b.toNat ∧ Sign.ofBitVec (@unpackSign Format.binary64 b) = .negative := by
  have sign := toNat_unpackSign b
  unfold Sign.ofBitVec
  split
  next clear =>
    rw [clear] at sign
    have : 0 = b.toNat / 2 ^ 63 := sign
    exact Or.inl ⟨by omega, rfl⟩
  next set =>
    have : b.toNat / 2 ^ 63 ≠ 0 := fun eq => set (BitVec.eq_of_toNat_eq (sign.trans eq))
    exact Or.inr ⟨by omega, rfl⟩

/-- The finite doubles below zero are those with the sign bit that are not zero. -/
theorem lt_zero_iff {x : Float} (finite : x.isFinite = true) :
    x < 0 ↔ 2 ^ 63 < x.toBits.toNat := by
  let b := x.toBits.toBitVec
  have bound : b.toNat < 2 ^ 64 := b.isLt
  have exponent := toNat_unpackExponent b
  have mantissa := toNat_unpackMantissa b
  show _ ↔ 2 ^ 63 < b.toNat
  rw [lt_zero_iff_unpack]
  rcases finite_cases finite with ⟨⟨zero, none⟩, eq⟩ | ⟨nonzero, m, q, positive, eq, packs⟩
  · rw [eq]
    have : 0 = b.toNat / 2 ^ 52 % 2 ^ 11 := by rw [← exponent, zero]; rfl
    have : 0 = b.toNat % 2 ^ 52 := by rw [← mantissa, none]; rfl
    exact iff_of_false (by simp [UnpackedFloat.compare]) (by omega)
  · rw [eq]
    rcases sign_cases b with ⟨clear, sign⟩ | ⟨set, sign⟩
    · rw [sign]
      exact iff_of_false (by simp [UnpackedFloat.compare]) (by omega)
    · rw [sign]
      refine iff_of_true rfl (Nat.lt_of_le_of_ne set fun same => ?_)
      rcases nonzero with some | some
      · exact some (BitVec.eq_of_toNat_eq (exponent.trans (by rw [← same]; rfl)))
      · exact some (BitVec.eq_of_toNat_eq (mantissa.trans (by rw [← same]; rfl)))

theorem isFinite_neg {x : Float} (finite : x.isFinite = true) : (-x).isFinite = true := by
  have other := isFinite_iff.mp finite
  rw [isFinite_iff, toBits_neg finite]
  omega

/-- Negating twice gives the double again. -/
theorem neg_neg_of_isFinite {x : Float} (finite : x.isFinite = true) : - -x = x := by
  have bound : x.toBits.toNat < 2 ^ 64 := x.toBits.toBitVec.isLt
  refine eq_of_toBits (UInt64.toNat_inj.mp ?_)
  rw [toBits_neg (isFinite_neg finite), toBits_neg finite]
  omega

/-- A double below zero, or the negative zero. -/
def Signed (x : Float) : Prop := x < 0 ∨ x = -0

instance : DecidablePred Signed := fun x => inferInstanceAs (Decidable (x < 0 ∨ x = -0))

/-- **The sign bit of a finite double is set iff the double is below zero or the negative zero.** -/
theorem signed_iff {x : Float} (finite : x.isFinite = true) :
    Signed x ↔ 2 ^ 63 ≤ x.toBits.toNat := by
  unfold Signed
  rw [lt_zero_iff finite]
  constructor
  · rintro (less | rfl)
    · exact Nat.le_of_lt less
    · exact Nat.le_of_eq toBits_negZero.symm
  · intro set
    rcases Nat.lt_or_eq_of_le set with less | same
    · exact Or.inl less
    · exact Or.inr (eq_of_toBits (UInt64.toNat_inj.mp (same.symm.trans toBits_negZero.symm)))

/-! ## Exact values -/

/-- The numbers `m · 2^q` that are finite doubles, each by one pair. -/
structure Canonical (m : Nat) (q : Int) : Prop where
  positive : 0 < m
  below : m < 2 ^ 53
  lowest : minExponent ≤ q
  highest : q ≤ 971
  normal : minExponent < q → 2 ^ 52 ≤ m

/-- A double in terms of its bits. -/
theorem ofFloat_eq {x : Float} {n : Nat} (bits : x.toBits.toNat = n) :
    Binary.ofFloat x =
      if n / 2 ^ 52 % 2048 = 2047 then
        if n % 2 ^ 52 = 0 then .infinite (n / 2 ^ 63 == 1) else .nan
      else if n / 2 ^ 52 % 2048 = 0 then
        if n % 2 ^ 52 = 0 then .zero (n / 2 ^ 63 == 1)
        else .finite (n / 2 ^ 63 == 1) (n % 2 ^ 52) minExponent
      else .finite (n / 2 ^ 63 == 1) (2 ^ 52 + n % 2 ^ 52)
        (minExponent + ((n / 2 ^ 52 % 2048 : Nat) - 1)) := by
  subst bits
  rfl

variable {x : Float} {negative : Bool} {m : Nat} {q : Int}

/-- **A double is not finite, or a signed zero, or a canonical pair with a sign**, and the bits say
which. -/
theorem ofFloat_cases (x : Float) :
    (¬x.isFinite = true ∧
      (Binary.ofFloat x = .nan ∨ ∃ negative, Binary.ofFloat x = .infinite negative)) ∨
    ∃ negative,
      (Binary.ofFloat x = .zero negative ∧ x.toBits.toNat = if negative then 2 ^ 63 else 0) ∨
      ∃ m q, Binary.ofFloat x = .finite negative m q ∧ Canonical m q ∧
        x.toBits.toNat = (if negative then 2 ^ 63 else 0) + (q + 1074).toNat * 2 ^ 52 + m := by
  have bound : x.toBits.toNat < 2 ^ 64 := x.toBits.toBitVec.isLt
  rw [isFinite_iff, ofFloat_eq rfl]
  generalize x.toBits.toNat = n at *
  split
  next special =>
    refine Or.inl ⟨not_not_intro special, ?_⟩
    split
    next => exact Or.inr ⟨_, rfl⟩
    next => exact Or.inl rfl
  next =>
    refine Or.inr ⟨n / 2 ^ 63 == 1, ?_⟩
    simp only [beq_iff_eq]
    split
    next =>
      split
      next =>
        refine Or.inl ⟨rfl, ?_⟩
        split <;> omega
      next =>
        refine Or.inr ⟨_, _, rfl, ⟨by omega, by omega, by decide, by decide, by simp⟩, ?_⟩
        unfold minExponent
        split <;> omega
    next =>
      refine Or.inr ⟨_, _, rfl, ?_⟩
      unfold minExponent
      refine ⟨⟨by omega, by omega, by unfold minExponent; omega, by omega, by omega⟩, ?_⟩
      split <;> omega

/-- A finite double is a signed zero, or it has a sign and an exact value. -/
theorem ofFloat_of_isFinite (finite : x.isFinite = true) :
    ∃ negative, Binary.ofFloat x = .zero negative ∨
      ∃ m q, Binary.ofFloat x = .finite negative m q := by
  rcases ofFloat_cases x with ⟨other, -⟩ | ⟨negative, ⟨zero, -⟩ | ⟨m, q, value, -⟩⟩
  · exact absurd finite other
  · exact ⟨negative, Or.inl zero⟩
  · exact ⟨negative, Or.inr ⟨m, q, value⟩⟩

/-- The bits of a signed zero. -/
theorem toBits_of_zero (value : Binary.ofFloat x = .zero negative) :
    x.toBits.toNat = if negative then 2 ^ 63 else 0 := by
  rcases ofFloat_cases x with ⟨-, eq | ⟨_, eq⟩⟩ | ⟨_, ⟨eq, bits⟩ | ⟨_, _, eq, -⟩⟩
  all_goals cases value.symm.trans eq
  exact bits

/-- The bits of a double that is not zero. -/
theorem toBits_of_finite (value : Binary.ofFloat x = .finite negative m q) :
    Canonical m q ∧
      x.toBits.toNat = (if negative then 2 ^ 63 else 0) + (q + 1074).toNat * 2 ^ 52 + m := by
  rcases ofFloat_cases x with ⟨-, eq | ⟨_, eq⟩⟩ | ⟨_, ⟨eq, -⟩ | ⟨_, _, eq, spec⟩⟩
  all_goals cases value.symm.trans eq
  exact spec

/-- The opposite of a signed double is not signed. -/
theorem not_signed_neg (finite : x.isFinite = true) (signed : Signed x) : ¬Signed (-x) := by
  have bound : x.toBits.toNat < 2 ^ 64 := x.toBits.toBitVec.isLt
  rw [signed_iff finite] at signed
  rw [signed_iff (isFinite_neg finite), toBits_neg finite]
  omega

/-- The exact value of a double that is not signed. -/
theorem ofFloat_of_not_signed (finite : x.isFinite = true) (unsigned : ¬Signed x) :
    Binary.ofFloat x = .zero false ∨ ∃ m q, Binary.ofFloat x = .finite false m q := by
  rw [signed_iff finite] at unsigned
  obtain ⟨negative, value⟩ := ofFloat_of_isFinite finite
  cases negative with
  | false => exact value
  | true =>
    rcases value with zero | ⟨m, q, value⟩
    · exact absurd (Nat.le_of_eq (toBits_of_zero zero).symm) unsigned
    · have bits := (toBits_of_finite value).2
      rw [if_pos rfl] at bits
      omega

/-- What has the value zero and no sign is zero. -/
theorem eq_zero_of_ofFloat (value : Binary.ofFloat x = .zero false) : x = 0 :=
  eq_of_toBits (UInt64.toNat_inj.mp ((toBits_of_zero value).trans toBits_zero.symm))

/-- A double that is not zero is told from its exact value. -/
theorem ofBits_of_finite (value : Binary.ofFloat x = .finite false m q) :
    Float.ofBits ((q + 1074).toNat * 2 ^ 52 + m).toUInt64 = x := by
  have bits := (toBits_of_finite value).2
  rw [if_neg Bool.false_ne_true, Nat.zero_add] at bits
  have whole : x.toBits.toNat.toUInt64 = x.toBits := UInt64.ofNat_toNat
  rw [← bits, whole, ofBits_toBits]

/-- The exact value of the opposite of a signed double. -/
theorem ofFloat_neg (finite : x.isFinite = true) (signed : Signed x) :
    Binary.ofFloat x = .zero true ∧ Binary.ofFloat (-x) = .zero false ∨
      ∃ m q, Binary.ofFloat x = .finite true m q ∧ Binary.ofFloat (-x) = .finite false m q := by
  have set := (signed_iff finite).mp signed
  have bound : x.toBits.toNat < 2 ^ 64 := x.toBits.toBitVec.isLt
  have other := isFinite_iff.mp finite
  have opposite := toBits_neg finite
  rw [ofFloat_eq rfl, ofFloat_eq opposite]
  generalize x.toBits.toNat = n at *
  have sign : n / 2 ^ 63 = 1 ∧ (n + 2 ^ 63) % 2 ^ 64 / 2 ^ 63 = 0 := by omega
  have exponent : (n + 2 ^ 63) % 2 ^ 64 / 2 ^ 52 % 2048 = n / 2 ^ 52 % 2048 := by omega
  have fraction : (n + 2 ^ 63) % 2 ^ 64 % 2 ^ 52 = n % 2 ^ 52 := by omega
  rw [sign.1, sign.2, exponent, fraction, if_neg other, if_neg other]
  split
  next =>
    split
    next => exact Or.inl ⟨rfl, rfl⟩
    next => exact Or.inr ⟨_, _, rfl, rfl⟩
  next => exact Or.inr ⟨_, _, rfl, rfl⟩

end SketchSolver.Decimal
