import SketchSolver.Decimal.Reading
import SketchSolver.Json.Value

/-!
# Typed JSON

What a value is worth where a natural number, a double, or a record of named fields is wanted.
Integers admit integer literals only; doubles admit every number literal that does not
overflow.

A record is an object, in which unknown keys are ignored and a known one may come only once, or
an array of its fields in order.

The JSON library reads a double in one of two ways, and the program is built with the fast one:
the digits are gathered into a significand of 64 bits (`gather`), further ones only count, and
the significand as a double is multiplied or divided by a power of ten (`scale?`). Each of these
steps rounds, so a double that was written with the fewest digits may be read as its neighbour.
`Number.toFloat?` follows it step by step; it is not the nearest double, which `Decimal.nearest`
is.

`readMembers` and `readItems` are what the derived readers of the program have in common. The
record under construction starts from its standard values, and `write?` puts a field there.
-/

namespace SketchSolver.Json

/-- The largest significand that is gathered from the digits of a number. -/
def maxSignificand : Nat := Nat.pow 2 64 - 1

/-- The digits gathered into a significand, from the left as long as it stays in bounds, and how many
digits were left out. -/
def gather (significand : Nat) : List Char → Nat × Nat
  | [] => (significand, 0)
  | c :: cs =>
    let next := 10 * significand + (c.toNat - '0'.toNat)
    if maxSignificand < next then (significand, cs.length + 1) else gather next cs

/-- The significand of a number and the power of ten that it is to be multiplied by. Digits of the
fraction that are left out change neither; digits before the point that are left out raise the
power. -/
def Number.parts (n : Number) : Nat × Int :=
  let (significand, skipped) := gather 0 n.whole
  let (significand, shift) :=
    match n.fraction with
    | none => (significand, (skipped : Int))
    | some ds =>
      let (significand, rest) := gather significand ds
      (significand, (skipped : Int) - (ds.length - rest : Nat))
  let exponent : Int :=
    match n.exponent with
    | none => 0
    | some (negative, ds) =>
      if negative then -(Decimal.ofDigits ds : Int) else Decimal.ofDigits ds
  (significand, shift + exponent)

/-- The largest power of ten that a double can hold. -/
def maxPower : Nat := 308

/-- A double divided by a power of ten, in steps that stay in range. -/
def divideByPower : Nat → Float → Nat → Float
  | 0, x, _ => x
  | fuel + 1, x, k =>
    if k ≤ maxPower then x / Decimal.nearest 1 k
    else if x == 0 then x
    else divideByPower fuel (x / Decimal.nearest 1 maxPower) (k - maxPower)

/-- A significand times a power of ten, in double arithmetic: one multiplication or division per
power that a double can hold. None stands for overflow. -/
def scale? (significand : Nat) (exponent : Int) : Option Float :=
  let x := Decimal.nearest significand 0
  if exponent < 0 then some (divideByPower exponent.natAbs x exponent.natAbs)
  else if exponent ≤ maxPower then
    let y := x * Decimal.nearest 1 exponent
    if y.isInf then none else some y
  else if x == 0 then some x
  else none

/-- The double that a number writes. -/
def Number.toFloat? (n : Number) : Option Float :=
  let (significand, exponent) := n.parts
  (scale? significand exponent).map fun x => if n.negative then -x else x

/-- The natural number that a number writes, if it is an integer literal below a bound. -/
def Number.toNat? (bound : Nat) (n : Number) : Option Nat :=
  if n.negative || n.fraction.isSome || n.exponent.isSome then none
  else
    let v := Decimal.ofDigits n.whole
    if v < bound then some v else none

namespace Value

/-- The double that a value writes. -/
def toFloat? : Value → Option Float
  | .number n => n.toFloat?
  | _ => none

/-- The natural number of at most 64 bits that a value writes. -/
def toNat64? : Value → Option Nat
  | .number n => n.toNat? (Nat.pow 2 64)
  | _ => none

/-- The natural number of at most 32 bits that a value writes. -/
def toNat32? : Value → Option Nat
  | .number n => n.toNat? (Nat.pow 2 32)
  | _ => none

end Value

/-- Adds the members of an object to a record under construction. `slot?` is the position of a known
key, `write?` puts a value there, and `seen` are the positions that have one. -/
def readMembers {ρ : Type} (slot? : String → Option Nat) (write? : ρ → Nat → Value → Option ρ) :
    List Nat → ρ → List (Text × Value) → Option (List Nat × ρ)
  | seen, r, [] => some (seen, r)
  | _, _, (none, _) :: _ => none
  | seen, r, (some key, v) :: ms =>
    match slot? key with
    | none => readMembers slot? write? seen r ms
    | some i =>
      if seen.contains i then none
      else do readMembers slot? write? (i :: seen) (← write? r i v) ms

/-- Adds the items of an array to a record under construction, from a position on. -/
def readItems {ρ : Type} (write? : ρ → Nat → Value → Option ρ) :
    Nat → ρ → List Value → Option (Nat × ρ)
  | i, r, [] => some (i, r)
  | i, r, v :: vs => do readItems write? (i + 1) (← write? r i v) vs

end SketchSolver.Json
