import SketchSolver.Decimal.Shortest

/-!
# Rounding to a fixed number of places

The exact value is rounded to the nearest point of a decimal grid, and a half goes to the even
neighbour.

This is what a format with a given number of digits does: the exact value of the double is
rounded, not its shortest text. So `0.125` with two places is `0.12`, and a value whose
shortest text ends in a five may go either way. In scientific form rounding may carry into a new
leading digit, and then the exponent moves with it.
-/

namespace SketchSolver.Decimal

/-- The natural number nearest to a quotient; a half goes to the even one. -/
def roundHalfEven (v : Positive) : Nat :=
  let d := v.num / v.den
  let twice := 2 * (v.num % v.den)
  if twice < v.den then d
  else if v.den < twice then d + 1
  else if d % 2 = 0 then d else d + 1

/-- The value rounded to a multiple of `10^k`. -/
def roundedTo (v : Positive) (k : Int) : Digits :=
  ⟨roundHalfEven (v.shift k), k⟩

/-- The value rounded to `places + 1` significant digits. Rounding may carry into a further digit,
and then the last place moves up with it. -/
def roundedSignificant (v : Positive) (places : Nat) : Digits :=
  let k := floorLog10 v - places
  let r := roundedTo v k
  if r.digits = Nat.pow 10 (places + 1) then ⟨Nat.pow 10 places, k + 1⟩ else r

end SketchSolver.Decimal
