import SketchSolver.Expr.Basic

/-!
# Vectors of expressions

Plane vectors whose components are expressions, for the directions, distances and products that
constraints are made of.

`ExprVector` is the type of the program with that name, and the operations have its names;
`ofParams` is `from_params`. A component that is used twice is copied there and shared here,
which no operation can tell. The opposite vector is the vector scaled by minus one, not the
vector of the negated components, and a length is the root of a sum of squares, so a vector of
length zero has a direction that is no number.
-/

namespace SketchSolver

/-- A plane vector whose components are expressions. -/
structure ExprVector (α : Type) where
  x : Expr α
  y : Expr α
  deriving Repr

namespace ExprVector

variable {α : Type}

/-- The vector of two parameters. -/
def ofParams (x y : Handle) : ExprVector α := ⟨.param x, .param y⟩

/-- The difference of two vectors. -/
def minus (a b : ExprVector α) : ExprVector α := ⟨a.x.minus b.x, a.y.minus b.y⟩

/-- The scalar product. -/
def dot (a b : ExprVector α) : Expr α := (a.x.times b.x).plus (a.y.times b.y)

/-- The signed area of the parallelogram that two vectors span. -/
def cross (a b : ExprVector α) : Expr α := (a.x.times b.y).minus (a.y.times b.x)

/-- Both components multiplied by an expression. -/
def scaledBy (a : ExprVector α) (s : Expr α) : ExprVector α := ⟨a.x.times s, a.y.times s⟩

/-- The opposite vector. -/
def negative [One α] [Neg α] (a : ExprVector α) : ExprVector α := a.scaledBy (.const (-1))

/-- The Euclidean length. -/
def magnitude (a : ExprVector α) : Expr α := (a.x.square.plus a.y.square).sqrt

/-- The vector of the same direction with another length. -/
def withMagnitude (a : ExprVector α) (s : Expr α) : ExprVector α := a.scaledBy (s.div a.magnitude)

end ExprVector

end SketchSolver
