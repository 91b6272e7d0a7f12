import SketchSolver.Expr.Basic

/-!
# Symbolic derivatives

`derivative p` differentiates by one parameter, by the rules for sums, products, quotients and
the elementary functions. It does not simplify, so its shape follows the shape of the
expression.

The program's `derivative` has the same cases, and its results have the same shape, operand for
operand: the texts of derivatives agree, and so does the order in which doubles are rounded.
The parameter is matched by identity. The derivative of a square root is written as a half
divided by the root, so where the root is zero its value is infinite or no number.
-/

namespace SketchSolver.Expr

variable {α : Type} [Zero α] [One α] [Add α] [Div α]

/-- The partial derivative by a parameter. -/
def derivative (p : Handle) : Expr α → Expr α
  | .param q => .const (if q = p then 1 else 0)
  | .const _ => .const 0
  | .binary op a b =>
    let da := a.derivative p
    let db := b.derivative p
    match op with
    | .plus => da.plus db
    | .minus => da.minus db
    | .times => (a.times db).plus (b.times da)
    | .div => ((da.times b).minus (a.times db)).div b.square
  | .unary op a =>
    let da := a.derivative p
    match op with
    | .negate => da.negate
    | .sqrt => ((Expr.const Scalar.half).div a.sqrt).times da
    | .square => ((Expr.const Scalar.two).times a).times da
    | .sin => a.cos.times da
    | .cos => a.sin.negate.times da

end SketchSolver.Expr
