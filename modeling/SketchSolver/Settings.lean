/-!
# Settings of the solver

Limits, tolerances and thresholds. `tolerance` picks the one for rough or for precise solving.

Correspondence with the program:
- `Settings` is its `SolverConfig`, and `standard` its default. The methods that set one field are
  record updates here.
- `RankMethod` has one case. The other one belongs to an optional part of the program that is
  not in its default build, and no settings text of that build can name it.
- The limits have the width of the machine there. They are natural numbers here, so settings
  read from a text are checked against 64 bits where they are read.
-/

namespace SketchSolver

/-- How the independent rows of a matrix are counted. -/
inductive RankMethod where
  | gramSchmidt
  deriving DecidableEq, Repr

/-- The name of a method in settings texts. -/
def RankMethod.name : RankMethod → String
  | .gramSchmidt => "GramSchmidt"

/-- The method with a name. -/
def RankMethod.ofName? (name : String) : Option RankMethod :=
  if name = RankMethod.gramSchmidt.name then some .gramSchmidt else none

/-- Limits, tolerances and thresholds of a solve. -/
structure Settings (α : Type) where
  /-- The most columns, and the most rows, of a matrix. -/
  maxUnknowns : Nat
  /-- The most Newton steps. -/
  maxIterations : Nat
  /-- Below it a residual counts as zero. -/
  convergenceTolerance : α
  /-- The same while an entity is dragged. -/
  roughTolerance : α
  /-- The least pivot of an elimination. -/
  pivotThreshold : α
  /-- The square of the least length of an independent row. -/
  rankThreshold : α
  /-- How far a dragged parameter moves in proportion to the others. -/
  draggedScale : α
  rankMethod : RankMethod := .gramSchmidt
  deriving BEq, Repr

namespace Settings

/-- The tolerance of a rough or of a precise solve. -/
def tolerance {α : Type} (c : Settings α) (rough : Bool) : α :=
  if rough then c.roughTolerance else c.convergenceTolerance

/-- The settings that hold unless others are given. -/
def standard : Settings Float where
  maxUnknowns := 1024
  maxIterations := 10
  convergenceTolerance := 1e-8
  roughTolerance := 1e-6
  pivotThreshold := 1e-20
  rankThreshold := 1e-12
  draggedScale := 0.05

end Settings

end SketchSolver
