import SketchSolver.Equation
import SketchSolver.Expr.Derivative

/-!
# Jacobians

The parameters with one tag are the unknowns of the equations with that tag. A Jacobian has a
column for every unknown and a row for every equation: the frozen expression of the equation,
and its derivative by every unknown. It is written once; `matrix` and `residuals` read it at
the values of the moment.

Correspondence with the program:
- `write` is its `write`, and `m` and `n` are the lengths of `rows` and `columns`. What it keeps in
  three lists, the ids, the residuals and the derivatives, is one list of `JacobianRow` here,
  so that a row cannot lack one of them.
- `matrix` and `residuals` are `eval_a` and `eval_b`, as functions of the values instead of writes
  into the fields `a` and `b`.
- `entry` is zero for an unknown that does not occur. The derivative would then be an
  expression whose value is zero, or no number; the program avoids it, and so does this.
- Tag zero selects the main system, and the number of a group what is solved alone.
-/

namespace SketchSolver

/-- More rows or columns than allowed. -/
structure TooMany where
  count : Nat
  limit : Nat
  deriving DecidableEq, Repr

/-- One row of a Jacobian. -/
structure JacobianRow (α : Type) where
  /-- The id of the equation. -/
  id : Int
  /-- The frozen expression of the equation. -/
  residual : Expr α
  /-- Its derivative by each column. -/
  entries : List (Expr α)
  deriving Repr

/-- The derivatives of some equations by some unknowns. -/
structure Jacobian (α : Type) where
  columns : List Handle
  rows : List (JacobianRow α)
  deriving Repr

namespace Jacobian

variable {α : Type}

section Write

variable [Zero α] [One α] [Add α] [Div α]

/-- The derivative of an expression by one unknown, which is zero where it does not occur. -/
def entry (f : Expr α) (p : Handle) : Expr α :=
  if f.usesParams && f.dependsOn p then f.derivative p else .const 0

/-- The row of an equation. -/
def row (s : Store α) (params : ParamList) (columns : List Handle) (e : Equation α) :
    JacobianRow α :=
  let f := e.expr.frozen s params
  ⟨e.id, f, columns.map (entry f)⟩

/-- The Jacobian of the parameters and equations with one tag. Too many columns are noticed before
too many rows. -/
def write (tag : Nat) (s : Store α) (params : ParamList) (equations : EquationList α)
    (limit : Nat) : Except TooMany (Jacobian α) :=
  let columns := params.toList.filter fun p => s.tag p == tag
  let selected := equations.toList.filter fun e => e.tag == tag
  if limit < columns.length then .error ⟨columns.length, limit⟩
  else if limit < selected.length then .error ⟨selected.length, limit⟩
  else .ok ⟨columns, selected.map (row s params columns)⟩

end Write

section Read

variable [Add α] [Sub α] [Mul α] [Div α] [Neg α] [Elementary α]

/-- The derivatives at given values of the parameters. -/
def matrix (j : Jacobian α) (env : Handle → α) : List (List α) :=
  j.rows.map fun r => r.entries.map (·.eval env)

/-- The residuals at given values of the parameters. -/
def residuals (j : Jacobian α) (env : Handle → α) : List α := j.rows.map (·.residual.eval env)

end Read

end Jacobian

/-- Whether every residual is below a tolerance. -/
def converged {α : Type} [Zero α] [Neg α] [LT α] [DecidableLT α] (tolerance : α) (b : List α) :
    Bool :=
  b.all fun r => Scalar.abs r < tolerance

end SketchSolver
