import Mathlib
import SketchSolver.Newton.Jacobian

/-!
# The rules of differentiation

`rate` is what an operator makes of the values and derivatives of its operands. That the
symbolic derivative evaluates to it holds by the shape of the tree, over any scalars
(`eval_derivative_unary`, `eval_derivative_binary`).

Every rate is linear in the derivatives of the operands, so over a field the symbolic
derivative by a parameter that does not occur evaluates to zero, which is why a Jacobian can
write a zero there (`Jacobian.eval_entry`).

The symbolic derivative of a tree repeats its operands, so it is larger than the tree, and it
is not simplified: the derivative of a constant is the constant zero and stays in the sums and
products. Evaluating it step by step would mean to follow this tree. With `rate` one evaluates
the operands and their derivatives, and the rule is stated once for an operator and not for
each place where it occurs. All that is known later about derivatives, over fields and over
the reals, is known about rates.

Over doubles the two rules still hold, and the one about parameters that do not occur does
not: a product of zero with an infinite value is no number. A Jacobian writes a zero in such a
place without evaluating anything.
-/

namespace SketchSolver

section Rates

variable {α : Type} [One α] [Add α] [Sub α] [Mul α] [Div α] [Neg α] [Elementary α]

/-- The derivative of an operator's result, from the operand and its derivative. -/
def UnaryOp.rate (op : UnaryOp) (a da : α) : α :=
  match op with
  | .negate => -da
  | .sqrt => Scalar.half / Elementary.sqrt a * da
  | .square => Scalar.two * a * da
  | .sin => Elementary.cos a * da
  | .cos => -Elementary.sin a * da

/-- The derivative of an operator's result, from the operands and their derivatives. -/
def BinaryOp.rate (op : BinaryOp) (a da b db : α) : α :=
  match op with
  | .plus => da + db
  | .minus => da - db
  | .times => a * db + b * da
  | .div => (da * b - a * db) / (b * b)

variable [Zero α] (env : Handle → α) (p : Handle)

@[simp] theorem Expr.eval_derivative_unary (op : UnaryOp) (a : Expr α) :
    ((Expr.unary op a).derivative p).eval env =
      op.rate (a.eval env) ((a.derivative p).eval env) := by
  cases op <;> rfl

@[simp] theorem Expr.eval_derivative_binary (op : BinaryOp) (a b : Expr α) :
    ((Expr.binary op a b).derivative p).eval env =
      op.rate (a.eval env) ((a.derivative p).eval env) (b.eval env)
        ((b.derivative p).eval env) := by
  cases op <;> rfl

end Rates

/-! ## Parameters that do not occur -/

/-- A parameter that occurs is a parameter that is used. -/
theorem Expr.usesParams_of_dependsOn {α : Type} {e : Expr α} {p : Handle}
    (occurs : e.dependsOn p = true) : e.usesParams = true := by
  induction e with
  | param q => rfl
  | const v => cases occurs
  | unary op a ih => exact ih occurs
  | binary op a b iha ihb =>
    rw [dependsOn, Bool.or_eq_true] at occurs
    rw [usesParams, Bool.or_eq_true]
    exact occurs.imp iha ihb

variable {K : Type} [Field K] [Elementary K]

theorem UnaryOp.rate_zero (op : UnaryOp) (a : K) : op.rate a 0 = 0 := by
  cases op <;> simp [rate]

omit [Elementary K] in
theorem BinaryOp.rate_zero (op : BinaryOp) (a b : K) : op.rate a 0 b 0 = 0 := by
  cases op <;> simp [rate]

/-- The symbolic derivative by a parameter that does not occur evaluates to zero. -/
theorem Expr.eval_derivative_of_not_dependsOn {e : Expr K} {p : Handle}
    (absent : e.dependsOn p = false) (env : Handle → K) : (e.derivative p).eval env = 0 := by
  induction e with
  | param q =>
    have ne : q ≠ p := by simpa [dependsOn] using absent
    simp [derivative, eval, ne]
  | const v => rfl
  | unary op a ih =>
    rw [eval_derivative_unary, ih absent, UnaryOp.rate_zero]
  | binary op a b iha ihb =>
    rw [dependsOn, Bool.or_eq_false_iff] at absent
    rw [eval_derivative_binary, iha absent.1, ihb absent.2, BinaryOp.rate_zero]

/-- What a Jacobian writes for an equation and an unknown has the value of the symbolic
derivative, also where it is the short zero. -/
theorem Jacobian.eval_entry (e : Expr K) (p : Handle) (env : Handle → K) :
    (entry e p).eval env = (e.derivative p).eval env := by
  rw [entry]
  split
  · rfl
  · next short =>
    have absent : e.dependsOn p = false := by
      by_contra occurs
      rw [Bool.not_eq_false] at occurs
      exact short (by rw [occurs, Expr.usesParams_of_dependsOn occurs]; rfl)
    rw [Expr.eval_derivative_of_not_dependsOn absent]
    rfl

end SketchSolver
