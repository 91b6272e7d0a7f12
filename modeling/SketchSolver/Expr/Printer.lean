import SketchSolver.Decimal.Layout
import SketchSolver.Equation

/-!
# Writing expressions

Every operator is written with its parentheses, and a negative constant has parentheses of its
own, so the text of an expression needs no rule of precedence.

`Expr.text` and `Equation.text` are the display forms of the program. A parameter is written as its
symbol, so two parameters with one symbol cannot be told apart in a text. A number has the
fewest digits that read back and never an exponent. A constant has parentheses when it is less
than zero, which negative zero is not: it is written `-0` and read back as a negation.
-/

namespace SketchSolver

/-- Values that are no numbers, as they appear in texts. -/
def textSpecial : Decimal.Special := ⟨"NaN", "inf"⟩

/-- A number as it appears in texts: the shortest digits, never with an exponent. -/
def numberText (x : Float) : String := Decimal.shortPositional textSpecial x

/-- What is written before the operand in parentheses. -/
def UnaryOp.text : UnaryOp → String
  | .negate => "-"
  | .sqrt => "sqrt"
  | .square => "sq"
  | .sin => "sin"
  | .cos => "cos"

/-- What is written between the operands. -/
def BinaryOp.text : BinaryOp → String
  | .plus => "+"
  | .minus => "-"
  | .times => "*"
  | .div => "/"

/-- The text of an expression. -/
def Expr.text (s : Store Float) : Expr Float → String
  | .param p => (s.get p).symbol
  | .const v => if v < 0 then "(" ++ numberText v ++ ")" else numberText v
  | .unary op a => op.text ++ "(" ++ a.text s ++ ")"
  | .binary op a b => "(" ++ a.text s ++ " " ++ op.text ++ " " ++ b.text s ++ ")"

/-- The text of an equation. -/
def Equation.text (s : Store Float) (e : Equation Float) : String := e.expr.text s ++ " = 0"

end SketchSolver
