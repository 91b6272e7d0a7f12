import SketchSolver.Proofs.Expr.Rates
import SketchSolver.Proofs.Newton.JacobianRows

/-!
# Expressions over the real numbers

Over the real numbers an expression is a function of the values of its parameters, and moving
the value of one parameter alone makes it a function of one variable. Where the expression is
`Defined`, this function is differentiable, and its derivative is what the symbolic derivative
evaluates to (`hasDerivAt_eval`).

The rules of the operators stand on their own: what the symbolic derivative evaluates to is
the `rate` of its operator, and that this is the derivative is a fact about real functions
(`UnaryOp.hasDerivAt_apply`, `BinaryOp.hasDerivAt_apply`). The induction over the tree only
joins the two. So the matrix of a Jacobian is the matrix of partial derivatives
(`Jacobian.matrix_eq_partials`).

`Defined` asks for two things at every operator below, and not just for the value of the whole:
no divisor is zero, and what stands under a square root is positive. The root of zero is
excluded since it has no derivative there, although it has a value. Everything else is
differentiable everywhere. A quotient by zero has the value zero over the reals, unlike over
doubles, so the condition is what keeps the two apart.

The instance of the elementary functions for the reals is that of analysis. Nothing of this
module runs: it says what the derivatives that the solver computes are approximations of.

The tactics of the calculus are applied to one operator at a time. Each rule is a case of a
lemma about derivatives of sums, products, quotients, roots and the trigonometric functions.
-/

namespace SketchSolver

/-- The elementary functions over the real numbers. -/
noncomputable instance : Elementary ℝ := ⟨Real.sqrt, Real.sin, Real.cos⟩

/-! ## The rules of the operators -/

section Rules

variable {f g : ℝ → ℝ} {f' g' x : ℝ}

/-- The chain rule for an operator with one operand. -/
theorem UnaryOp.hasDerivAt_apply {op : UnaryOp} (hf : HasDerivAt f f' x)
    (positive : op = .sqrt → 0 < f x) :
    HasDerivAt (fun y => op.apply (f y)) (op.rate (f x) f') x := by
  cases op with
  | negate => exact hf.neg
  | sqrt =>
    have root : HasDerivAt (fun y => Real.sqrt (f y)) (f' / (2 * Real.sqrt (f x))) x :=
      hf.sqrt (positive rfl).ne'
    have rate : UnaryOp.sqrt.rate (f x) f' = f' / (2 * Real.sqrt (f x)) := by
      show 1 / (1 + 1) / Real.sqrt (f x) * f' = f' / (2 * Real.sqrt (f x))
      rw [one_add_one_eq_two, div_div, one_div_mul_eq_div]
    rw [rate]
    exact root
  | square =>
    have product : HasDerivAt (fun y => f y * f y) (f' * f x + f x * f') x := hf.mul hf
    refine product.congr_deriv ?_
    show f' * f x + f x * f' = (1 + 1) * f x * f'
    ring
  | sin => exact hf.sin
  | cos => exact hf.cos

/-- The rules for sums, differences, products and quotients. -/
theorem BinaryOp.hasDerivAt_apply {op : BinaryOp} (hf : HasDerivAt f f' x)
    (hg : HasDerivAt g g' x) (divisor : op = .div → g x ≠ 0) :
    HasDerivAt (fun y => op.apply (f y) (g y)) (op.rate (f x) f' (g x) g') x := by
  cases op with
  | plus => exact hf.add hg
  | minus => exact hf.sub hg
  | times =>
    have product : HasDerivAt (fun y => f y * g y) (f' * g x + f x * g') x := hf.mul hg
    refine product.congr_deriv ?_
    show f' * g x + f x * g' = f x * g' + g x * f'
    ring
  | div =>
    have quotient : HasDerivAt (fun y => f y / g y) ((f' * g x - f x * g') / g x ^ 2) x :=
      hf.div hg (divisor rfl)
    refine quotient.congr_deriv ?_
    show (f' * g x - f x * g') / g x ^ 2 = (f' * g x - f x * g') / (g x * g x)
    rw [pow_two]

end Rules

/-! ## Expressions -/

namespace Expr

/-- Whether no divisor is zero and what stands under every square root is positive. -/
def Defined (env : Handle → ℝ) : Expr ℝ → Prop
  | .param _ | .const _ => True
  | .unary op a => a.Defined env ∧ (op = .sqrt → 0 < a.eval env)
  | .binary op a b => a.Defined env ∧ b.Defined env ∧ (op = .div → b.eval env ≠ 0)

/-- Where an expression is defined, the value of its symbolic derivative is the derivative of
its value. -/
theorem hasDerivAt_eval {e : Expr ℝ} {env : Handle → ℝ} (defined : e.Defined env) (p : Handle) :
    HasDerivAt (fun x => e.eval (Function.update env p x)) ((e.derivative p).eval env)
      (env p) := by
  induction e with
  | param q =>
    by_cases same : q = p
    · subst same
      simpa [eval, derivative] using hasDerivAt_id' (env q)
    · simpa [eval, derivative, same] using hasDerivAt_const (env p) (env q)
  | const v => exact hasDerivAt_const (env p) v
  | unary op a ih =>
    have operand := ih defined.1
    have here : a.eval (Function.update env p (env p)) = a.eval env := by
      rw [Function.update_eq_self]
    rw [eval_derivative_unary, ← here]
    refine UnaryOp.hasDerivAt_apply operand fun root => ?_
    rw [here]
    exact defined.2 root
  | binary op a b iha ihb =>
    have left := iha defined.1
    have right := ihb defined.2.1
    have here (c : Expr ℝ) : c.eval (Function.update env p (env p)) = c.eval env := by
      rw [Function.update_eq_self]
    rw [eval_derivative_binary, ← here a, ← here b]
    refine BinaryOp.hasDerivAt_apply left right fun quotient => ?_
    rw [here b]
    exact defined.2.2 quotient

end Expr

/-! ## Jacobians -/

namespace Jacobian

/-- Where all residuals of a Jacobian are defined, its matrix holds their partial derivatives. -/
theorem matrix_eq_partials {tag limit : Nat} {s : Store ℝ} {params : ParamList}
    {equations : EquationList ℝ} {j : Jacobian ℝ} {env : Handle → ℝ}
    (written : write tag s params equations limit = .ok j)
    (defined : ∀ r ∈ j.rows, r.residual.Defined env) :
    j.matrix env = j.rows.map fun r => j.columns.map fun p =>
      deriv (fun x => r.residual.eval (Function.update env p x)) (env p) := by
  have shape := (write_ok written).2
  refine List.map_congr_left fun r mem => ?_
  rw [shape] at mem
  obtain ⟨e, -, rfl⟩ := List.mem_map.mp mem
  show ((j.columns.map (entry _)).map (·.eval env)) = _
  rw [List.map_map]
  refine List.map_congr_left fun p _ => ?_
  have residual : (row s params j.columns e).residual.Defined env := defined _ (shape ▸ mem)
  show (entry (row s params j.columns e).residual p).eval env = _
  rw [eval_entry, (Expr.hasDerivAt_eval residual p).deriv]

end Jacobian

/-! ## The whole statement -/

/-- **The symbolic derivative is the derivative.** Where all divisors of an expression are other
than zero and all that stands under a square root is positive, its value as a function of one
parameter is differentiable, and the derivative is what the symbolic derivative evaluates to. By a
parameter that does not occur this is zero, and the zero that a Jacobian writes for it has the same
value as what it stands for. -/
theorem Expr.derivative_differentiates {e : Expr ℝ} {env : Handle → ℝ} (defined : e.Defined env)
    (p : Handle) :
    HasDerivAt (fun x => e.eval (Function.update env p x)) ((e.derivative p).eval env) (env p) ∧
    (e.dependsOn p = false →
      (e.derivative p).eval env = 0 ∧ Jacobian.entry e p = .const 0) ∧
    (Jacobian.entry e p).eval env = (e.derivative p).eval env := by
  refine ⟨hasDerivAt_eval defined p, fun absent => ⟨?_, ?_⟩, Jacobian.eval_entry e p env⟩
  · exact eval_derivative_of_not_dependsOn absent env
  · rw [Jacobian.entry, absent, Bool.and_false]
    rfl

/-- A root times its operand, divided by another parameter, differentiated by the operand and by a
parameter that does not occur. -/
theorem Expr.derivative_differentiates_rootQuotient :
    let e : Expr ℝ := .div (.times (.sqrt (.param ⟨0⟩)) (.param ⟨0⟩)) (.param ⟨1⟩)
    let env : Handle → ℝ := fun p => p.index + 1
    e.Defined env ∧
    HasDerivAt (fun x => e.eval (Function.update env ⟨0⟩ x)) ((e.derivative ⟨0⟩).eval env)
      (env ⟨0⟩) ∧
    e.dependsOn ⟨2⟩ = false ∧ (e.derivative ⟨2⟩).eval env = 0 ∧
    Jacobian.entry e ⟨2⟩ = .const 0 := by
  intro e env
  have defined : e.Defined env := by
    refine ⟨⟨⟨trivial, fun _ => ?_⟩, trivial, nofun⟩, trivial, fun _ => ?_⟩
    · show (0 : ℝ) < ((0 : ℕ) : ℝ) + 1
      norm_num
    · show ((1 : ℕ) : ℝ) + 1 ≠ 0
      norm_num
  have absent : e.dependsOn ⟨2⟩ = false := rfl
  have short := (derivative_differentiates defined ⟨2⟩).2.1 absent
  exact ⟨defined, (derivative_differentiates defined ⟨0⟩).1, absent, short.1, short.2⟩

end SketchSolver
