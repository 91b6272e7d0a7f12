import SketchSolver.Linear.LeastNorm

/-!
# Counting independent rows

Each row loses its components along the rows before it, one after the other. It counts as
independent when the square of what remains exceeds the threshold; rows that do not are left
out of the projections that follow.

Correspondence with the program:
- `rank` is `gram_schmidt_rank`. A copy of the matrix is overwritten row by row there, beside a
  list of the squares; a `Residue` holds a remaining row with its square.
- The components are removed from what is left so far and not from the row as it was given.
  Exactly computed that is the same, and with rounding it is the better of the two.
- The threshold is compared with squares, in the projection with `≤` and in the count with `<`,
  so rows are projected along a row exactly when it is counted. A square that is no number is
  the exception: both comparisons fail, and it is projected along but not counted.
-/

namespace SketchSolver.Linear

variable {α : Type} [Zero α] [Add α] [Sub α] [Mul α] [Div α]

/-- What is left of a row, and the square of its length. -/
structure Residue (α : Type) where
  row : List α
  square : α
  deriving Repr

section Test

variable [LT α] [LE α] [DecidableLT α] [DecidableLE α]

/-- A row without its component along an earlier one, unless that one is negligible. -/
def project (threshold : α) (row : List α) (earlier : Residue α) : List α :=
  if earlier.square ≤ threshold then row
  else
    let weight := dot earlier.row row / earlier.square
    List.zipWith (fun x e => x - e * weight) row earlier.row

/-- What is left of a row after all earlier ones. -/
def residue (threshold : α) (earlier : List (Residue α)) (row : List α) : Residue α :=
  let rest := earlier.foldl (project threshold) row
  ⟨rest, dot rest rest⟩

/-- What is left of every row, in order. -/
def residues (threshold : α) (rows : List (List α)) : List (Residue α) :=
  rows.foldl (fun earlier row => earlier ++ [residue threshold earlier row]) []

/-- How many rows exceed the threshold. -/
def rank (threshold : α) (rows : List (List α)) : Nat :=
  (residues threshold rows).countP fun r => threshold < r.square

end Test

end SketchSolver.Linear
