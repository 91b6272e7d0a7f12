import SketchSolver.Constraint.Kind
import SketchSolver.Expr.Reading
import SketchSolver.Problem.Text
import SketchSolver.Sketch.Id

/-!
# Failures

Everything that an operation on a sketch can fail for, as causes, with their wording and the
class that is reported for them.

Correspondence with the program:
- `Failure` is its `SolverError`, `root` is `root_cause`, `status` is `status`, and `message?` the
  display form.
- The failures of a solve are one case with a `SolveFailure` in it, `unsolved`. The wrappers
  `SolveFailed` and `AddConstraintFailed` may hold any failure there; the program only ever wraps
  the failure of a solve in the first and that in the second. So `rolledBack` and `rejected` hold
  the cause itself, and no wrapper can hold the wrong thing.
- A failed check of numbers names the kind, what was counted, and both counts. The expected
  count follows from the kind, and `wrongEntities` and `wrongParams` keep what was found.
- A text that cannot be read has the wording of the JSON library there, and none here.
-/

namespace SketchSolver

/-- Why an operation failed. -/
inductive Failure (α : Type) where
  /-- A list has an item with this id already. -/
  | duplicateId (id : Int)
  /-- No kind of constraints has this code. -/
  | unknownKind (code : Nat)
  /-- A constraint was given the wrong number of entities. -/
  | wrongEntities (kind : Kind) (found : Nat)
  /-- The entities of a constraint have the wrong number of parameters. -/
  | wrongParams (kind : Kind) (found : Nat)
  | constraintNotFound (id : ConstraintId)
  | entityNotFound (id : EntityId)
  | spaceNotFound (index : Nat)
  /-- An earlier solve failed, and nothing was done about it since. -/
  | locked
  /-- A solve failed and left the values where it gave up. -/
  | unsolved (cause : SolveFailure α)
  /-- A solve failed, and the values are those from before. -/
  | rolledBack (cause : SolveFailure α)
  /-- A solve with a new constraint failed, and the constraint is gone again. -/
  | rejected (cause : SolveFailure α)
  | expression (e : ExpressionError)
  /-- A text is not what it should be. -/
  | unreadable
  deriving Repr

namespace Failure

/-- The cause of a failure, without what was done about it. -/
def root {α : Type} : Failure α → Failure α
  | .rolledBack cause | .rejected cause => .unsolved cause
  | e => e

/-- The class that is reported for a failure. -/
def status {α : Type} : Failure α → SolveStatus
  | .unsolved cause | .rolledBack cause | .rejected cause => cause.status
  | _ => .notConverged

/-- The wording of a failure. An unreadable text has none of its own. -/
def message? : Failure Float → Option String
  | .duplicateId id => s!"Duplicate id {id}"
  | .unknownKind code => s!"Constraint schema {code} doesn't exist"
  | .wrongEntities kind found =>
    s!"{kind.name} expects {kind.entityCount} entities, found {found}"
  | .wrongParams kind found => s!"{kind.name} expects {kind.paramCount} parameters, found {found}"
  | .constraintNotFound id => s!"Constraint {id.text} not found"
  | .entityNotFound id => s!"Entity {id.number} not found"
  | .spaceNotFound index => s!"Solver space {index} not found"
  | .locked =>
    "Solving is locked after a failure; try to remove at least one constraint and try again"
  | .unsolved cause => cause.message
  | .rolledBack cause => s!"Solve failed: {cause.message}"
  | .rejected cause => s!"Add constraint fails: Solve failed: {cause.message}"
  | .expression e => s!"Expression error: {e.message}"
  | .unreadable => none

end Failure

end SketchSolver
