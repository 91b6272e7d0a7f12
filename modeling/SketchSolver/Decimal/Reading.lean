import SketchSolver.Decimal.Rounded

/-!
# Reading decimals

`nearest` is the double nearest to `m · 10^e`; a half goes to the even significand, and what lies
beyond the largest double becomes infinite. It works on the exact value, so no digit is lost on
the way.

The numbers of expression texts are read so, by the parser library of the program. The bits of
the double are computed as one number: doubles that follow each other have bits that follow
each other, so a significand that rounds up to a power of two carries into the exponent and
there is no case for it. Exponents far outside the range are answered before any power of ten is
formed, since a text of a few characters can write one with a million digits.
-/

namespace SketchSolver.Decimal

/-- The greatest `k` with `2^k ≤ v`. -/
def floorLog2 (v : Positive) : Int :=
  let k := (v.num.log2 : Int) - v.den.log2
  if 0 ≤ k then (if v.num < v.den * Nat.pow 2 k.natAbs then k - 1 else k)
  else if v.num * Nat.pow 2 k.natAbs < v.den then k - 1 else k

/-- The bits of positive infinity. -/
def infinityBits : Nat := 2047 * Nat.pow 2 fractionBits

/-- The bits of the double nearest to a positive value. Consecutive doubles have consecutive bits, so
a carry out of the significand moves into the exponent by itself. -/
def nearestBits (v : Positive) : Nat :=
  let q := max minExponent (floorLog2 v - fractionBits)
  let scaled : Positive :=
    if q < 0 then ⟨v.num * Nat.pow 2 q.natAbs, v.den⟩ else ⟨v.num, v.den * Nat.pow 2 q.natAbs⟩
  min infinityBits ((q - minExponent).toNat * Nat.pow 2 fractionBits + roundHalfEven scaled)

/-- Above `10^309` every value is infinite, and below `10^(-330)` every value is zero. -/
def nearest (m : Nat) (e : Int) : Float :=
  let magnitude := e + digitCount m
  if m = 0 then 0
  else if 310 < magnitude then Float.ofBits infinityBits.toUInt64
  else if magnitude < -330 then 0
  else Float.ofBits (nearestBits (Positive.scaled m 10 e)).toUInt64

/-- The digits at the head of a text, and what follows them. -/
def spanDigits (cs : List Char) : List Char × List Char := cs.span Char.isDigit

/-- The number that a list of digits writes. -/
def ofDigits (cs : List Char) : Nat := cs.foldl (fun n c => 10 * n + (c.toNat - '0'.toNat)) 0

end SketchSolver.Decimal
