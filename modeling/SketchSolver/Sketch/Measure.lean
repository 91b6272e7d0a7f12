import SketchSolver.Decimal.Reading
import SketchSolver.Expr.Printer
import SketchSolver.Sketch.Shape

/-!
# Measuring shapes

Lengths at the current values of the parameters, and shapes as text. A length is the double
nearest to the square root of the exact sum of the squares, so no coordinate is too large or
too small for it. The sum is a natural number times a power of two; its root is computed with
`rootPlaces` binary places more, and a last place stands for all that follow, so that the
rounding to a double is the only one.

Correspondence with the program:
- `Point.distanceTo` is `distance_to`, and the length of a segment is the distance of its ends.
- `vectorLength` is the library's `hypot`, with its rule that an infinite component wins over
  one that is no number. The library may miss the nearest double by a last place. Nothing that
  the solver does depends on a length that was measured: constraints on lengths are expressions
  of their own (`Point.distance`).
- `Shape.text` is the display form of an entity.
-/

namespace SketchSolver

/-- How many binary places of a square root are computed beyond the unit of its argument. -/
def rootPlaces : Nat := 64

/-- The double nearest to `√n · 2^q` for positive `n`. The root has more places than a double; a last
one stands for all that follow. -/
def nearestRoot (n : Nat) (q : Int) : Float :=
  let scaled := n * Nat.pow 4 rootPlaces
  let root := scaled.sqrt
  let sticky := if root * root = scaled then 0 else 1
  let value := Decimal.Positive.scaled (2 * root + sticky) 2 (q - rootPlaces - 1)
  Float.ofBits (Decimal.nearestBits value).toUInt64

/-- The length of the vector with two finite components `± m · 2^q` and `± n · 2^r`. -/
def finiteLength (m : Nat) (q : Int) (n : Nat) (r : Int) : Float :=
  let low := min q r
  let a := m * Nat.pow 2 (q - low).toNat
  let b := n * Nat.pow 2 (r - low).toNat
  nearestRoot (a * a + b * b) low

/-- The length of a vector. An infinite component makes it infinite, whatever the other one is. -/
def vectorLength (x y : Float) : Float :=
  match Decimal.Binary.ofFloat x, Decimal.Binary.ofFloat y with
  | .infinite _, _ => x.abs
  | _, .infinite _ => y.abs
  | .nan, _ => x
  | _, .nan => y
  | .zero _, _ => y.abs
  | _, .zero _ => x.abs
  | .finite _ m q, .finite _ n r => finiteLength m q n r

/-- The distance of two points at the current values. -/
def Point.distanceTo (s : Store Float) (p q : Point) : Float :=
  vectorLength (s.value p.x - s.value q.x) (s.value p.y - s.value q.y)

/-- The text of a shape: its sort and the values of its parameters. -/
def Shape.text (s : Store Float) (shape : Shape) : String :=
  let values := shape.params.map fun p => numberText (s.value p)
  shape.name ++ "(" ++ ", ".intercalate values ++ ")"

end SketchSolver
