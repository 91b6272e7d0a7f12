import SketchSolver.Linear.LeastNorm
import SketchSolver.Newton.Jacobian
import SketchSolver.Settings

/-!
# Newton's method

`run` changes the unknowns of a Jacobian until every residual is below a tolerance. Each step
is the solution of least weighted norm of the linear system that the Jacobian is at the
current values, so of the many ways to satisfy fewer equations than unknowns it takes the one
that moves least; dragged parameters have a weight of their own.

A run that fails leaves the values where it gave up.

Correspondence with the program:
- `run` is `newton_solve`. The checks come in its order: more equations than unknowns, then
  residuals that are small from the start, then the steps.
- Its Jacobian holds the matrix and the residuals of the moment and is evaluated again when
  values have changed. Here both are read from the store whenever they are needed, and they are
  needed at the same points.
- `move` is the loop over the columns and the step. It looks at each value right after it was
  written, so the columns after one that is no number keep theirs.
- The loop over the iterations counts up to the limit; `iterate` counts the remaining steps down,
  which makes it structural, and carries the steps done for the report.
-/

namespace SketchSolver

/-- Why a run of Newton's method gave up. -/
inductive NewtonFailure (α : Type) where
  /-- The rows of a step depend on each other. -/
  | singular (e : Linear.Singular)
  | overdetermined (equations unknowns : Nat)
  /-- The value of the parameter with an id is no number. -/
  | lostParam (id : Int)
  /-- A residual is no number. -/
  | lostResidual
  | residualsAbove (tolerance : α) (iterations : Nat)
  deriving Repr

namespace Newton

variable {α : Type}

/-- The weight of each column: the scale of dragged parameters, and one for the others. -/
def scales [Zero α] [One α] (draggedScale : α) (dragged : List Int) (s : Store α)
    (columns : List Handle) : List α :=
  columns.map fun p => if s.id p ∈ dragged then draggedScale else 1

/-- The store after each column was moved back by its component of a step. It stops at the first
value that is no number. -/
def move [Zero α] [Sub α] [BEq α] (s : Store α) :
    List Handle → List α → Except (NewtonFailure α) Unit × Store α
  | p :: ps, dx :: dxs =>
    let s := s.setValue p (s.value p - dx)
    if Scalar.isNaN (s.value p) then (.error (.lostParam (s.id p)), s) else move s ps dxs
  | _, _ => (.ok (), s)

section Run

variable [Zero α] [One α] [Add α] [Sub α] [Mul α] [Div α] [Neg α] [LT α] [BEq α]
variable [DecidableLT α] [Elementary α]

/-- One step: the least change that satisfies the system linearised at the current values. -/
def step (pivotThreshold : α) (scale : List α) (j : Jacobian α) (s : Store α) :
    Except (NewtonFailure α) Unit × Store α :=
  match Linear.leastNorm pivotThreshold (j.matrix s.value) (j.residuals s.value) scale with
  | .error e => (.error (.singular e), s)
  | .ok dxs => move s j.columns dxs

/-- Takes steps until the residuals are below the tolerance, after `done` steps and with `remaining`
ones allowed. The result is the number of all steps. -/
def iterate (pivotThreshold tolerance : α) (scale : List α) (j : Jacobian α) (done : Nat) :
    Nat → Store α → Except (NewtonFailure α) Nat × Store α
  | 0, s => (.error (.residualsAbove tolerance done), s)
  | remaining + 1, s =>
    match step pivotThreshold scale j s with
    | (.error e, s) => (.error e, s)
    | (.ok (), s) =>
      let b := j.residuals s.value
      if b.any Scalar.isNaN then (.error .lostResidual, s)
      else if converged tolerance b then (.ok (done + 1), s)
      else iterate pivotThreshold tolerance scale j (done + 1) remaining s

/-- Changes the unknowns until the residuals are below the tolerance. The result is the number of
steps, which is zero when they are so from the start. -/
def run (settings : Settings α) (dragged : List Int) (tolerance : α) (j : Jacobian α)
    (s : Store α) : Except (NewtonFailure α) Nat × Store α :=
  if j.columns.length < j.rows.length then
    (.error (.overdetermined j.rows.length j.columns.length), s)
  else if converged tolerance (j.residuals s.value) then (.ok 0, s)
  else
    iterate settings.pivotThreshold tolerance (scales settings.draggedScale dragged s j.columns) j 0
      settings.maxIterations s

end Run

end Newton

end SketchSolver
