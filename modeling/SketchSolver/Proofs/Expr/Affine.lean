import SketchSolver.Proofs.Expr.Rates

/-!
# Affine expressions

An expression is affine if it is built from parameters and from parts without parameters by
sums, differences, negation, products with a part without parameters, and quotients by one
that is not zero. Its symbolic derivatives have the same values everywhere
(`Affine.eval_derivative`), and moving one parameter changes its value by the derivative
times the distance (`Affine.eval_update`).

Being affine is a property of the tree. An expression whose value happens to be affine, like a
difference of two equal squares, is none here, and so the condition can be read off an
equation. Parts without parameters may be anything, also roots and quotients, as long as a
divisor is not zero where it is divided by.

A derivative of a product is written with both factors and both derivatives, whichever of them
are zero. For a factor without parameters the derivative evaluates to zero, and the other
summand is left. Over a field this is an equation between values; no rewriting of expressions
takes place, and none is needed.

The scalars are those of any field, since the two statements are about sums and products
only. What they are for is Newton's method: on affine equations one step is exact.
-/

namespace SketchSolver.Expr

variable {K : Type} [Field K] [Elementary K] {e : Expr K}
variable {env env' : Handle → K}

/-- Built from parameters and from parts without parameters by affine operations. -/
inductive Affine : Expr K → Prop where
  | constant {c : Expr K} (free : c.usesParams = false) : Affine c
  | param (p : Handle) : Affine (.param p)
  | negate {a : Expr K} (ha : Affine a) : Affine (.unary .negate a)
  | plus {a b : Expr K} (ha : Affine a) (hb : Affine b) : Affine (.binary .plus a b)
  | minus {a b : Expr K} (ha : Affine a) (hb : Affine b) : Affine (.binary .minus a b)
  | scaled {c a : Expr K} (free : c.usesParams = false) (ha : Affine a) :
    Affine (.binary .times c a)
  | times {a c : Expr K} (ha : Affine a) (free : c.usesParams = false) :
    Affine (.binary .times a c)
  | div {a c : Expr K} (ha : Affine a) (free : c.usesParams = false)
    (nonzero : ∀ env, c.eval env ≠ 0) : Affine (.binary .div a c)

/-! ## Parts without parameters -/

/-- Without parameters the value is the same everywhere. -/
theorem eval_of_not_usesParams (free : e.usesParams = false) : e.eval env = e.eval env' := by
  induction e with
  | param q => cases free
  | const v => rfl
  | unary op a ih =>
    rw [eval, eval, ih free]
  | binary op a b iha ihb =>
    rw [usesParams, Bool.or_eq_false_iff] at free
    rw [eval, eval, iha free.1, ihb free.2]

/-- Without parameters all derivatives are zero. -/
theorem eval_derivative_of_not_usesParams (free : e.usesParams = false) (p : Handle) :
    (e.derivative p).eval env = 0 := by
  refine eval_derivative_of_not_dependsOn ?_ env
  by_contra occurs
  rw [Bool.not_eq_false] at occurs
  rw [usesParams_of_dependsOn occurs] at free
  cases free

section Factors

variable {a c : Expr K} (free : c.usesParams = false) (p : Handle)
include free

/-- A factor in front is kept by differentiation. -/
theorem eval_derivative_scaled : ((Expr.binary .times c a).derivative p).eval env =
    c.eval env * (a.derivative p).eval env := by
  rw [eval_derivative_binary, BinaryOp.rate, eval_derivative_of_not_usesParams free, mul_zero,
    add_zero]

theorem eval_derivative_times : ((Expr.binary .times a c).derivative p).eval env =
    c.eval env * (a.derivative p).eval env := by
  rw [eval_derivative_binary, BinaryOp.rate, eval_derivative_of_not_usesParams free, mul_zero,
    zero_add]

theorem eval_derivative_div (nonzero : c.eval env ≠ 0) :
    ((Expr.binary .div a c).derivative p).eval env = (a.derivative p).eval env / c.eval env := by
  rw [eval_derivative_binary, BinaryOp.rate, eval_derivative_of_not_usesParams free, mul_zero,
    sub_zero, mul_div_mul_right _ _ nonzero]

end Factors

/-! ## Derivatives and changes -/

/-- **The derivatives of an affine expression are constant.** -/
theorem Affine.eval_derivative (affine : e.Affine) (p : Handle) :
    (e.derivative p).eval env = (e.derivative p).eval env' := by
  induction affine with
  | constant free =>
    rw [eval_derivative_of_not_usesParams free, eval_derivative_of_not_usesParams free]
  | param q => rfl
  | negate ha ih =>
    rw [eval_derivative_unary, eval_derivative_unary, UnaryOp.rate, UnaryOp.rate, ih]
  | plus ha hb iha ihb =>
    rw [eval_derivative_binary, eval_derivative_binary, BinaryOp.rate, BinaryOp.rate, iha, ihb]
  | minus ha hb iha ihb =>
    rw [eval_derivative_binary, eval_derivative_binary, BinaryOp.rate, BinaryOp.rate, iha, ihb]
  | scaled free ha ih =>
    rw [eval_derivative_scaled free, eval_derivative_scaled free, ih, eval_of_not_usesParams free]
  | times ha free ih =>
    rw [eval_derivative_times free, eval_derivative_times free, ih, eval_of_not_usesParams free]
  | div ha free nonzero ih =>
    rw [eval_derivative_div free p (nonzero env), eval_derivative_div free p (nonzero env'), ih,
      eval_of_not_usesParams free]

/-- **Moving one parameter** changes the value by the derivative times the distance. -/
theorem Affine.eval_update (affine : e.Affine) (p : Handle) (dx : K) :
    e.eval (Function.update env p (env p - dx)) =
      e.eval env - (e.derivative p).eval env * dx := by
  induction affine with
  | constant free =>
    rw [eval_derivative_of_not_usesParams free, zero_mul, sub_zero, eval_of_not_usesParams free]
  | param q =>
    rw [eval, derivative, eval, eval]
    by_cases same : q = p
    · rw [same, Function.update_self, if_pos rfl, one_mul]
    · rw [Function.update_of_ne same, if_neg same, zero_mul, sub_zero]
  | negate ha ih =>
    rw [eval_derivative_unary, eval, eval, ih]
    simp only [UnaryOp.rate, UnaryOp.apply]
    ring
  | plus ha hb iha ihb =>
    rw [eval_derivative_binary, eval, eval, iha, ihb]
    simp only [BinaryOp.rate, BinaryOp.apply]
    ring
  | minus ha hb iha ihb =>
    rw [eval_derivative_binary, eval, eval, iha, ihb]
    simp only [BinaryOp.rate, BinaryOp.apply]
    ring
  | scaled free ha ih =>
    rw [eval_derivative_scaled free, eval, eval, ih, eval_of_not_usesParams free]
    simp only [BinaryOp.apply]
    ring
  | times ha free ih =>
    rw [eval_derivative_times free, eval, eval, ih, eval_of_not_usesParams free]
    simp only [BinaryOp.apply]
    ring
  | div ha free nonzero ih =>
    rw [eval_derivative_div free p (nonzero env), eval, eval, ih, eval_of_not_usesParams free]
    simp only [BinaryOp.apply]
    ring

end SketchSolver.Expr
