/-!
# Doubles as exact binary fractions

Every finite double is `± m · 2^q` for a natural number `m` and an integer `q`. All decimal text
of this library is computed from that exact value in natural number arithmetic, so nothing
below rounds except where it says so.

`Positive` holds the absolute value of a finite, non-zero double as a fraction `num / den`;
`floorLog10` places its leading decimal digit. It lifts the value by a power of ten until it is
at least one and counts digits then, so no logarithm is computed.

The program leaves the text of numbers to standard routines. What they print is defined by the
exact value, and the modules here compute it from that definition rather than by the algorithms
in use there.
-/

namespace SketchSolver.Decimal

/-- A double, taken apart. -/
inductive Binary where
  | nan
  | infinite (negative : Bool)
  | zero (negative : Bool)
  /-- The value `± m · 2^q` with `m` positive. -/
  | finite (negative : Bool) (m : Nat) (q : Int)
  deriving Repr, DecidableEq

/-- The number of fraction bits that a double stores. -/
def fractionBits : Nat := 52

/-- The exponent of the last place of the subnormal doubles. -/
def minExponent : Int := -1074

/-- The parts of a double, read off its bits. -/
def Binary.ofFloat (x : Float) : Binary :=
  let bits := x.toBits.toNat
  let negative := bits / Nat.pow 2 63 == 1
  let biased := bits / Nat.pow 2 fractionBits % 2048
  let fraction := bits % Nat.pow 2 fractionBits
  if biased = 2047 then
    if fraction = 0 then .infinite negative else .nan
  else if biased = 0 then
    if fraction = 0 then .zero negative else .finite negative fraction minExponent
  else
    .finite negative (Nat.pow 2 fractionBits + fraction) (minExponent + (biased - 1))

/-- A positive rational number as a quotient of natural numbers. -/
structure Positive where
  num : Nat
  den : Nat
  deriving Repr, DecidableEq

namespace Positive

/-- The value `m · b^e`, with the power on the side where it is a natural number. -/
def scaled (m b : Nat) (e : Int) : Positive :=
  if e < 0 then ⟨m, Nat.pow b e.natAbs⟩ else ⟨m * Nat.pow b e.natAbs, 1⟩

/-- The value divided by `10^k`. -/
def shift (v : Positive) (k : Int) : Positive :=
  if k < 0 then ⟨v.num * Nat.pow 10 k.natAbs, v.den⟩ else ⟨v.num, v.den * Nat.pow 10 k.natAbs⟩

/-- The largest natural number that is not above the value. -/
def floor (v : Positive) : Nat := v.num / v.den

end Positive

/-- How many decimal digits a natural number has; zero has one. -/
def digitCount (n : Nat) : Nat := (Nat.toDigits 10 n).length

/-- A power of ten so high that every positive double times it is at least one. -/
def liftExponent : Nat := 350

/-- The exponent of the leading decimal digit: the greatest `k` with `10^k ≤ v`, for every
positive double `v`. -/
def floorLog10 (v : Positive) : Int :=
  (digitCount (v.shift (-liftExponent)).floor : Int) - 1 - liftExponent

end SketchSolver.Decimal
