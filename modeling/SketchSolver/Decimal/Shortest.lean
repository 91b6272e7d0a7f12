import SketchSolver.Decimal.Binary

/-!
# The fewest decimal digits that read back

A double owns the interval of reals that round to it: half a last place to either side, the ends
included exactly when its significand is even. A decimal reads back as the double iff it lies in
that interval.

`shortest` tries one digit, then two, and so on: on each decimal grid it tests the value's two
neighbours, and the first grid with a hit wins. Of two hits the nearer one is taken, and `Tie`
says which way an exact tie goes.

Seventeen digits always hit, so the search has a bound. The two routines that write numbers for
the program, its display form and its JSON library, agree on the interval and on the number of
digits and differ in ties only. An interval is kept with its ends as multiples of a quarter of
the last place, since below a power of two half a place is half as wide.
-/

namespace SketchSolver.Decimal

/-- Which of two equally near candidates is written. -/
inductive Tie where
  | up
  | toEven
  deriving Repr, DecidableEq

/-- The interval of reals that round to `m · 2^q`, with its ends as multiples of `2^(q-2)`. -/
structure Interval where
  low : Nat
  high : Nat
  closed : Bool
  deriving Repr, DecidableEq

/-- Half a place below and above. Below a power of two the doubles lie twice as dense, so the lower
half place is half as wide there. -/
def interval (m : Nat) (q : Int) : Interval :=
  let below := if m = Nat.pow 2 fractionBits ∧ minExponent < q then 1 else 2
  ⟨4 * m - below, 4 * m + 2, m % 2 == 0⟩

/-- The decimal `digits · 10^exponent`. -/
structure Digits where
  digits : Nat
  exponent : Int
  deriving Repr, DecidableEq

/-- Whether `d · 10^k` lies in the interval of `m · 2^q`. -/
def Interval.contains (i : Interval) (q : Int) (d : Nat) (k : Int) : Bool :=
  -- both sides times `2^a · 10^b`, large enough to clear the denominators
  let twos := (q - 2).natAbs
  let tens := k.natAbs
  let left := d * (if k < 0 then 1 else Nat.pow 10 tens) * (if q - 2 < 0 then Nat.pow 2 twos else 1)
  let scale := (if k < 0 then Nat.pow 10 tens else 1) * (if q - 2 < 0 then 1 else Nat.pow 2 twos)
  if i.closed then i.low * scale ≤ left && left ≤ i.high * scale
  else i.low * scale < left && left < i.high * scale

/-- Whether the upper of two neighbouring grid points `d` and `d + 1` is to be taken for the value
`v`, both of them being hits. -/
def takeUpper (tie : Tie) (v : Positive) (d : Nat) : Bool :=
  let twice := 2 * v.num
  let middle := (2 * d + 1) * v.den
  if twice = middle then
    match tie with
    | .up => true
    | .toEven => d % 2 == 1
  else middle < twice

/-- The hit on the grid `10^k`, if there is one. -/
def onGrid? (tie : Tie) (m : Nat) (q : Int) (k : Int) : Option Digits :=
  let v := (Positive.scaled m 2 q).shift k
  let i := interval m q
  let d := v.floor
  let lower := 0 < d && i.contains q d k
  let upper := i.contains q (d + 1) k
  if lower && upper then some ⟨if takeUpper tie v d then d + 1 else d, k⟩
  else if lower then some ⟨d, k⟩
  else if upper then some ⟨d + 1, k⟩
  else none

/-- Seventeen significant digits tell all doubles apart. -/
def maxDigits : Nat := 17

/-- The fewest digits that read back as `m · 2^q`, and the nearest of those. -/
def shortest (tie : Tie) (m : Nat) (q : Int) : Digits :=
  let top := floorLog10 (Positive.scaled m 2 q)
  ((List.range maxDigits).findSome? fun (n : Nat) => onGrid? tie m q (top - n)).getD ⟨m, 0⟩

end SketchSolver.Decimal
