import SketchSolver.Scalar
import SketchSolver.Store

/-!
# Expressions

An expression is a tree whose leaves are parameters and constants. It is built once for an
equation, and then evaluated many times.

`eval` takes the values of the parameters as a function of the handle, so the same tree can be
read at the values of a store, or as a function of one parameter with all others fixed.

Correspondence with the program:
- `Expr` is its `Expr`, and the operators are its two enumerations. A leaf holds a shared pointer
  there, through which `eval` reads the value of the moment.
- `params`, `usesParams`, `dependsOn` and `paramDifference?` are `get_params`, `param_used`,
  `depends_on` and `as_param_difference`. Whether a parameter occurs is asked by identity, never
  by id or symbol.
- Every operation there returns a tree of its own and leaves its operands. Trees are values
  here, so nothing needs to be said about that.
- `square` is an operator and not a product of two operands: its operand is evaluated once, it is
  written `sq`, and its derivative has a rule of its own.
- `anyUnary` is for reports on expressions: it finds sines and cosines.
-/

namespace SketchSolver

/-- The operators with one operand. -/
inductive UnaryOp where
  | negate
  | sqrt
  | square
  | sin
  | cos
  deriving DecidableEq, Repr

/-- The operators with two operands. -/
inductive BinaryOp where
  | plus
  | minus
  | times
  | div
  deriving DecidableEq, Repr

/-- An expression over the parameters of a sketch. -/
inductive Expr (α : Type) where
  | param (p : Handle)
  | const (v : α)
  | unary (op : UnaryOp) (a : Expr α)
  | binary (op : BinaryOp) (a b : Expr α)
  deriving Repr

/-- What an operator with one operand computes. -/
def UnaryOp.apply {α : Type} [Neg α] [Mul α] [Elementary α] (op : UnaryOp) (a : α) : α :=
  match op with
  | .negate => -a
  | .sqrt => Elementary.sqrt a
  | .square => a * a
  | .sin => Elementary.sin a
  | .cos => Elementary.cos a

/-- What an operator with two operands computes. -/
def BinaryOp.apply {α : Type} [Add α] [Sub α] [Mul α] [Div α] (op : BinaryOp) (a b : α) : α :=
  match op with
  | .plus => a + b
  | .minus => a - b
  | .times => a * b
  | .div => a / b

namespace Expr

variable {α : Type}

/-! ## Building -/

/-- The sum of two expressions. -/
def plus (a b : Expr α) : Expr α := .binary .plus a b

/-- The difference of two expressions. -/
def minus (a b : Expr α) : Expr α := .binary .minus a b

/-- The product of two expressions. -/
def times (a b : Expr α) : Expr α := .binary .times a b

/-- The quotient of two expressions. -/
def div (a b : Expr α) : Expr α := .binary .div a b

/-- The negation of an expression. -/
def negate (a : Expr α) : Expr α := .unary .negate a

/-- The square root of an expression. -/
def sqrt (a : Expr α) : Expr α := .unary .sqrt a

/-- The product of an expression with itself. -/
def square (a : Expr α) : Expr α := .unary .square a

/-- The sine of an expression. -/
def sin (a : Expr α) : Expr α := .unary .sin a

/-- The cosine of an expression. -/
def cos (a : Expr α) : Expr α := .unary .cos a

instance : Add (Expr α) := ⟨plus⟩
instance : Sub (Expr α) := ⟨minus⟩
instance : Mul (Expr α) := ⟨times⟩
instance : Div (Expr α) := ⟨div⟩
instance : Neg (Expr α) := ⟨negate⟩

/-! ## Shape -/

/-- How many operands the outermost operator has. -/
def children : Expr α → Nat
  | .param _ | .const _ => 0
  | .unary _ _ => 1
  | .binary _ _ _ => 2

/-- How many nodes the tree has. -/
def nodes : Expr α → Nat
  | .param _ | .const _ => 1
  | .unary _ a => 1 + a.nodes
  | .binary _ a b => 1 + a.nodes + b.nodes

/-- The parameters at the leaves from left to right, each as often as it occurs. -/
def params : Expr α → List Handle
  | .param p => [p]
  | .const _ => []
  | .unary _ a => a.params
  | .binary _ a b => a.params ++ b.params

/-- Whether any parameter occurs. -/
def usesParams : Expr α → Bool
  | .param _ => true
  | .const _ => false
  | .unary _ a => a.usesParams
  | .binary _ a b => a.usesParams || b.usesParams

/-- Whether one parameter occurs. -/
def dependsOn (p : Handle) : Expr α → Bool
  | .param q => q == p
  | .const _ => false
  | .unary _ a => a.dependsOn p
  | .binary _ a b => a.dependsOn p || b.dependsOn p

/-- Whether an operator with one operand satisfies a test anywhere in the tree. -/
def anyUnary (test : UnaryOp → Bool) : Expr α → Bool
  | .param _ | .const _ => false
  | .unary op a => test op || a.anyUnary test
  | .binary _ a b => a.anyUnary test || b.anyUnary test

/-- The two parameters of an expression that is exactly the difference of two parameters. -/
def paramDifference? : Expr α → Option (Handle × Handle)
  | .binary .minus (.param p) (.param q) => some (p, q)
  | _ => none

/-! ## Values -/

section Eval

variable [Add α] [Sub α] [Mul α] [Div α] [Neg α] [Elementary α]

/-- The value of an expression at given values of the parameters. -/
def eval (env : Handle → α) : Expr α → α
  | .param p => env p
  | .const v => v
  | .unary op a => op.apply (a.eval env)
  | .binary op a b => op.apply (a.eval env) (b.eval env)

end Eval

end Expr

end SketchSolver
