import SketchSolver.Constraint.Kind
import SketchSolver.Expr.Vector
import SketchSolver.Sketch.Shape

/-!
# What a constraint demands

A constraint holds when certain expressions of its parameters are zero. Each kind reads the
parameters of its entities by position, as the patterns of `residuals?` show.

Correspondence with the program:
- Each line of `residuals?` is one generator of the schemas, `coincident` to `point_on_circle`. A
  generator first checks the number of parameters; here that is the last line, for all of them.
- `Point.difference`, `Point.distance` and `Point.lineDistance` are `direction`, `distance` and
  `point_to_line_distance`, which take the coordinates one by one there.
- The two equations of `symmetric` have names of their own, `acrossAxis` and `oppositeSides`.
- `parallel` and `collinear` demand the same: the cross product of the two directions. Nothing
  asks that collinear segments lie on one line.
- Expressions are built in the same shape, since texts, derivatives and the order of rounding
  depend on it.
-/

namespace SketchSolver

namespace Point

variable {α : Type}

/-- The position of a point. -/
def position (p : Point) : ExprVector α := .ofParams p.x p.y

/-- The vector to a point `a` from a point `b`. -/
def difference (a b : Point) : ExprVector α := a.position.minus b.position

/-- The distance of two points. -/
def distance (a b : Point) : Expr α := (a.difference b).magnitude

/-- The distance of a point from the line through two points. Its sign tells the side. -/
def lineDistance (p a b : Point) : Expr α :=
  let d : ExprVector α := a.difference b
  let along := d.y.times ((Expr.param a.x).minus (.param p.x))
  let across := d.x.times ((Expr.param a.y).minus (.param p.y))
  (along.minus across).div d.magnitude

end Point

namespace Kind

variable {α : Type}

/-- Two parameters are equal. -/
def equal (p q : Handle) : Expr α := (Expr.param p).minus (.param q)

/-- The line through two points is at right angles to the axis through two others. -/
def acrossAxis (a b la lb : Point) : Expr α := (b.difference a).dot (lb.difference la)

/-- Two points are at the same distance from an axis, on opposite sides. -/
def oppositeSides (a b la lb : Point) : Expr α :=
  let axis := lb.difference la
  ((la.difference a).cross axis).plus ((la.difference b).cross axis)

/-- The expressions that are zero when a constraint holds. None if the number of parameters is wrong. -/
def residuals? (kind : Kind) (params : List Handle) : Option (List (Expr α)) :=
  match kind, params with
  | coincident, [x1, y1, x2, y2] => some [equal x1 x2, equal y1 y2]
  | horizontal, [_, y1, _, y2] => some [equal y1 y2]
  | vertical, [x1, _, x2, _] => some [equal x1 x2]
  | parallel, [x1, y1, x2, y2, x3, y3, x4, y4] =>
    some [(Point.difference ⟨x1, y1⟩ ⟨x2, y2⟩).cross (Point.difference ⟨x3, y3⟩ ⟨x4, y4⟩)]
  | perpendicular, [x1, y1, x2, y2, x3, y3, x4, y4] =>
    some [(Point.difference ⟨x1, y1⟩ ⟨x2, y2⟩).dot (Point.difference ⟨x3, y3⟩ ⟨x4, y4⟩)]
  | collinear, [x1, y1, x2, y2, x3, y3, x4, y4] =>
    some [(Point.difference ⟨x1, y1⟩ ⟨x2, y2⟩).cross (Point.difference ⟨x3, y3⟩ ⟨x4, y4⟩)]
  | equalRadius, [_, _, r1, _, _, r2] => some [equal r1 r2]
  | tangent, [x1, y1, x2, y2, cx, cy, r] =>
    some [(Point.lineDistance ⟨cx, cy⟩ ⟨x1, y1⟩ ⟨x2, y2⟩).minus (.param r)]
  | equalLength, [x1, y1, x2, y2, x3, y3, x4, y4] =>
    some [(Point.distance ⟨x1, y1⟩ ⟨x2, y2⟩).minus (Point.distance ⟨x3, y3⟩ ⟨x4, y4⟩)]
  | symmetric, [x1, y1, x2, y2, x3, y3, x4, y4] =>
    some [acrossAxis ⟨x1, y1⟩ ⟨x2, y2⟩ ⟨x3, y3⟩ ⟨x4, y4⟩,
      oppositeSides ⟨x1, y1⟩ ⟨x2, y2⟩ ⟨x3, y3⟩ ⟨x4, y4⟩]
  | pointOnLine, [px, py, x1, y1, x2, y2] =>
    some [Point.lineDistance ⟨px, py⟩ ⟨x1, y1⟩ ⟨x2, y2⟩]
  | pointOnCircle, [px, py, cx, cy, r] =>
    some [(Point.distance ⟨px, py⟩ ⟨cx, cy⟩).minus (.param r)]
  | _, _ => none

end Kind

end SketchSolver
