import SketchSolver.Scalar

/-!
# Gaussian elimination

`solve` takes a square system as its rows, each with a right-hand side, and removes one
unknown after the other. The row whose leading coefficient is largest becomes the pivot row; a
multiple of it is subtracted from every other row, and what remains is a system with one row
and one unknown less. When all unknowns are removed, the values come back from the last to the
first.

A largest leading coefficient below the threshold means that the rows depend on each other.
`Singular` tells how many were independent.

Correspondence with the program:
- `solve` is `solve_linear_system`. It works in place on a square array there: the rows above the
  pivot and the entries left of it stay in the array and are not read again until the values
  come back. Here a pivot row waits in the recursion, and the columns done are dropped.
- `largest` keeps the first of several largest rows, and the top row when all leading
  coefficients are zero; `exchange` puts the top row where the pivot row was.
- The operations on a coefficient, and their order, are the same, so over doubles the results
  are the same digit for digit.
- A row that is shorter than it should be cannot come up in an array. `head` reads a zero there,
  and no square system makes use of it.
-/

namespace SketchSolver.Linear

/-- The rows of a system are not independent: only `rank` of them are. -/
structure Singular where
  rank : Nat
  rows : Nat
  deriving DecidableEq, Repr

/-- One equation of a linear system: coefficients from the first unknown on, and a right-hand side. -/
structure Row (α : Type) where
  coeffs : List α
  rhs : α
  deriving Repr

section Pivoting

variable {α : Type} [Zero α] [Neg α] [LT α] [DecidableLT α]

/-- The leading coefficient of a row. -/
def Row.head (r : Row α) : α := r.coeffs.headD 0

/-- The first row whose leading coefficient is larger than those before it, from row `index` on. `best`
is the choice among the rows before, and `size` the magnitude of its leading coefficient. -/
def largestFrom (index best : Nat) (size : α) : List (Row α) → Nat × α
  | [] => (best, size)
  | r :: rows =>
    if size < Scalar.abs r.head then largestFrom (index + 1) index (Scalar.abs r.head) rows
    else largestFrom (index + 1) best size rows

/-- The row with the largest leading coefficient, and its magnitude. The first row stands in when no
coefficient is larger than zero. -/
def largest (rows : List (Row α)) : Nat × α := largestFrom 0 0 0 rows

/-- The row at a position, and the others in order with the first row in its place. -/
def exchange (rows : List (Row α)) (i : Nat) : Option (Row α × List (Row α)) :=
  match rows with
  | [] => none
  | first :: rest =>
    if i = 0 then some (first, rest)
    else (rest[i - 1]?).map fun pivot => (pivot, rest.set (i - 1) first)

end Pivoting

section Solving

variable {α : Type} [Zero α] [Neg α] [Sub α] [Mul α] [Div α] [LT α] [DecidableLT α]

/-- A row without its first unknown, after a multiple of the pivot row was subtracted from it. -/
def Row.reduceBy (pivot r : Row α) : Row α :=
  let factor := r.head / pivot.head
  ⟨List.zipWith (fun x p => x - factor * p) r.coeffs.tail pivot.coeffs.tail,
    r.rhs - factor * pivot.rhs⟩

/-- The value of the first unknown of a row, from the values of the others. -/
def Row.leadValue (r : Row α) (xs : List α) : α :=
  (List.zipWith (fun x c => x * c) xs r.coeffs.tail).foldl (· - ·) r.rhs / r.head

/-- The solution of the system that is left after `done` unknowns of `total` were removed. -/
def solveFrom (threshold : α) (total done : Nat) : Nat → List (Row α) → Except Singular (List α)
  | 0, _ => .ok []
  | n + 1, rows =>
    let (i, size) := largest rows
    if size < threshold then .error ⟨done, total⟩
    else
      match exchange rows i with
      | none => .error ⟨done, total⟩
      | some (pivot, others) =>
        match solveFrom threshold total (done + 1) n (others.map pivot.reduceBy) with
        | .ok xs => .ok (pivot.leadValue xs :: xs)
        | .error e => .error e

/-- The solution of a square system. -/
def solve (threshold : α) (rows : List (Row α)) : Except Singular (List α) :=
  solveFrom threshold rows.length 0 rows.length rows

end Solving

end SketchSolver.Linear
