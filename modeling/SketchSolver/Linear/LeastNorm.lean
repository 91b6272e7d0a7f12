import SketchSolver.Linear.Elimination

/-!
# The step of least weighted norm

An underdetermined system `A x = b` has many solutions. With a scale `s` for every unknown,
`leastNorm` takes the one for which the sum of `(x / s)²` is least: it solves
`(A S)(A S)ᵗ z = b` and returns `S (A S)ᵗ z`. An unknown with a small scale hardly moves.

Correspondence with the program:
- `leastNorm` is `least_squares_step`. `gram` is its product of the scaled matrix with its
  transpose, and `combine` its product of the transpose with `z`.
- These products, and the scalar product of two rows, come from an array library there, which
  adds in an order of its own: eight partial sums for a scalar product, blocks for a matrix.
  Here every sum is added from the left. Over doubles the last places can differ, and what is
  computed was compared on systems for which they do not matter. Over an exact field there is
  one sum, and no theorem uses the order in which it is formed.
-/

namespace SketchSolver.Linear

variable {α : Type} [Zero α] [Add α] [Mul α]

/-- The scalar product, added from the left. The program's array library adds eight partial sums
and then these, so over doubles the last places may differ; no theorem uses the order. -/
def dot (u v : List α) : α := (List.zipWith (· * ·) u v).foldl (· + ·) 0

/-- The combination of rows of length `n` with the given weights. -/
def combine (n : Nat) (rows : List (List α)) (weights : List α) : List α :=
  (List.zip rows weights).foldl
    (fun acc (row, w) => List.zipWith (fun a r => a + r * w) acc row) (List.replicate n 0)

/-- The rows with every column multiplied by its scale. -/
def scaleColumns (rows : List (List α)) (scale : List α) : List (List α) :=
  rows.map fun row => List.zipWith (· * ·) row scale

/-- The products of all rows with each other, as a system for the given right-hand sides. -/
def gram (rows : List (List α)) (b : List α) : List (Row α) :=
  List.zipWith (fun row rhs => ⟨rows.map (dot row), rhs⟩) rows b

/-- The solution of least weighted norm. -/
def leastNorm [Neg α] [Sub α] [Div α] [LT α] [DecidableLT α] (threshold : α)
    (rows : List (List α)) (b scale : List α) : Except Singular (List α) :=
  let scaled := scaleColumns rows scale
  match solve threshold (gram scaled b) with
  | .ok z => .ok (List.zipWith (· * ·) (combine scale.length scaled z) scale)
  | .error e => .error e

end SketchSolver.Linear
