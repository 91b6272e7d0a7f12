import SketchSolver.Expr.Printer
import SketchSolver.Problem.Solve

/-!
# The wording of solves

The text of a report, and of the reasons for which a solve fails, with the class that each
reason is reported under.

Correspondence with the program:
- `Report.text` is the display form of a report. Its status line never changes.
- The messages are those of the error type. Dependent rows have one wording, whether the count
  of independent rows found them or a step of Newton's method did.
- `SolveStatus` and its codes are those of the front end. A failed group of the third phase
  counts as not converged, also when its step was singular: the program wraps the message and
  forgets the sort of the error.
-/

namespace SketchSolver

/-- The outcome of a solve as a class of causes. -/
inductive SolveStatus where
  | solved
  | singular
  | notConverged
  | tooManyUnknowns
  | redundant
  deriving DecidableEq, Repr

/-- The code of an outcome. -/
def SolveStatus.code : SolveStatus → Nat
  | .solved => 0
  | .singular => 1
  | .notConverged => 2
  | .tooManyUnknowns => 3
  | .redundant => 4

/-- Whether an outcome is success. -/
def SolveStatus.isOk (s : SolveStatus) : Bool := s == .solved

/-- The text of a report. -/
def Report.text (r : Report) : String :=
  "Solve Report\n" ++
  "============\n" ++
  "Status: SolvedOkay\n" ++
  s!"Degrees of freedom: {r.freedom}\n" ++
  s!"Main system: {r.equations} equations, {r.unknowns} unknowns\n" ++
  s!"Newton iterations: {r.iterations}\n" ++
  s!"Pre-processed equations: {r.alone}\n" ++
  s!"Substituted parameters: {r.eliminated}"

/-- The wording of dependent rows. -/
def Linear.Singular.message (e : Linear.Singular) : String :=
  s!"Jacobian matrix is singular: rank {e.rank} of {e.rows} equations"

/-- The wording of a solve that comes to no result for a given reason. -/
def notConverged (reason : String) : String := "Solver did not converge: " ++ reason

/-- The wording of the reasons to give up. -/
def NewtonFailure.message : NewtonFailure Float → String
  | .singular e => e.message
  | .overdetermined equations unknowns =>
    notConverged s!"{equations} equations for {unknowns} unknowns"
  | .lostParam id => notConverged s!"parameter {id} became NaN"
  | .lostResidual => notConverged "residual became NaN"
  | .residualsAbove tolerance iterations =>
    notConverged s!"residuals above {numberText tolerance} after {iterations} iterations"

/-- The class of a reason to give up. -/
def NewtonFailure.status {α : Type} : NewtonFailure α → SolveStatus
  | .singular _ => .singular
  | _ => .notConverged

/-- The wording of a failed solve. -/
def SolveFailure.message : SolveFailure Float → String
  | .redundant pair =>
    s!"Redundant constraint: parameters {pair.first} and {pair.second} are already equal"
  | .tooMany e => s!"Too many unknowns: {e.count} exceeds the limit of {e.limit}"
  | .dependent e => e.message
  | .newton e => e.message
  | .alone group e => notConverged s!"pre-process group {group}: {e.message}"

/-- The class of a failed solve. -/
def SolveFailure.status {α : Type} : SolveFailure α → SolveStatus
  | .redundant _ => .redundant
  | .tooMany _ => .tooManyUnknowns
  | .dependent _ => .singular
  | .newton e => e.status
  | .alone _ _ => .notConverged

end SketchSolver
