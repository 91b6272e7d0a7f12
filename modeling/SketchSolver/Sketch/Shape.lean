import SketchSolver.Scalar
import SketchSolver.Store

/-!
# Shapes

A shape is made of points and, for a circle, a radius. Its parameters have a fixed order,
because constraints read them by position:

* a point: `x`, `y`;
* a segment: both ends;
* a circle: the centre, then the radius;
* an arc: start, end and centre.

Correspondence with the program:
- `Shape` is its `Entity`, with the shapes' own records as the arguments of the constructors.
- `params` is `visit_params`, as a list in place of a visitor. For anything but a circle it is
  made of the parameters of the points, so one line serves three shapes.
- `parts` is `children`: points that share the handles of the shape, not copies of them.
- `Point.create` makes two parameters with the symbols `x` and `y`; a radius has the symbol `r`.
- `translate` moves the points one after the other and leaves a radius alone.
-/

namespace SketchSolver

/-- A point with two coordinates. -/
structure Point where
  x : Handle
  y : Handle
  deriving DecidableEq, Repr

/-- What an entity of a sketch looks like. -/
inductive Shape where
  | point (p : Point)
  | segment (a b : Point)
  | circle (center : Point) (radius : Handle)
  | arc (start finish center : Point)
  deriving DecidableEq, Repr

namespace Point

/-- The coordinates as a list. -/
def params (p : Point) : List Handle := [p.x, p.y]

variable {α : Type}

/-- A new point at a position, and the store with its coordinates. -/
def create (s : Store α) (x y : α) : Point × Store α :=
  let (px, s) := s.add "x" x
  let (py, s) := s.add "y" y
  (⟨px, py⟩, s)

/-- The store in which a point is somewhere else. -/
def moveTo [Zero α] (p : Point) (s : Store α) (x y : α) : Store α :=
  (s.setValue p.x x).setValue p.y y

/-- The store in which a point is moved by a vector. -/
def translate [Zero α] [Add α] (p : Point) (s : Store α) (dx dy : α) : Store α :=
  p.moveTo s (s.value p.x + dx) (s.value p.y + dy)

end Point

namespace Shape

/-- The name of the sort of shape. -/
def name : Shape → String
  | point _ => "point"
  | segment _ _ => "segment"
  | circle _ _ => "circle"
  | arc _ _ _ => "arc"

/-- The points of a shape. -/
def points : Shape → List Point
  | point p => [p]
  | segment a b => [a, b]
  | circle c _ => [c]
  | arc a b c => [a, b, c]

/-- The shapes that are entities of their own beside a shape: the points of anything but a point. -/
def parts : Shape → List Shape
  | point _ => []
  | shape => shape.points.map point

/-- The parameters of a shape in order. -/
def params : Shape → List Handle
  | circle c r => c.params ++ [r]
  | shape => shape.points.flatMap Point.params

/-- The store in which all points of a shape are moved by a vector. -/
def translate {α : Type} [Zero α] [Add α] (shape : Shape) (s : Store α) (dx dy : α) : Store α :=
  shape.points.foldl (fun s p => p.translate s dx dy) s

end Shape

end SketchSolver
