import SketchSolver.Expr.Formula
import SketchSolver.Text.Quoted

/-!
# Reading expressions

Names are resolved from left to right, the argument of a call before the name of its function.
A variable stands for the first parameter with its symbol.

Correspondence with the program:
- `Formula.resolve` is `lower`, `Expr.parseWith` is `parse` with a function that looks names up, and
  `Expr.parse` is `parse_with_params`.
- `ExpressionError` has the three causes of the program. It keeps a syntax error as what it is;
  the wording is what the program shows, the parser library's own form of its errors.
- A text fails for its syntax before any name is looked at, so an unknown name in a text that
  does not parse is never reported.
- Names of functions and of variables do not clash: only what stands before a parenthesis is a
  function, and a parameter may have the symbol `sin`.
-/

namespace SketchSolver

/-- Why a text is no expression. -/
inductive ExpressionError where
  | ofSyntax (e : SyntaxError)
  | undefinedVariable (name : String)
  | undefinedFunction (name : String)
  deriving DecidableEq, Repr

/-- The wording of a syntax error. -/
def SyntaxError.message : SyntaxError → String
  | .unexpected rest => "Error(Error \x7b input: " ++ Text.quoted rest ++ ", code: Char \x7d)"
  | .noDigits rest => "Error(Error \x7b input: " ++ Text.quoted rest ++ ", code: Float \x7d)"
  | .noExponent rest => "Failure(Error \x7b input: " ++ Text.quoted rest ++ ", code: Float \x7d)"
  | .trailing rest => "Unexpected trailing characters: '" ++ String.ofList rest ++ "'"

/-- The wording of an expression error. -/
def ExpressionError.message : ExpressionError → String
  | .ofSyntax e => "Failed to parse expression: " ++ e.message
  | .undefinedVariable name => "Undefined variable: " ++ name
  | .undefinedFunction name => "Undefined function: " ++ name

/-- The operator that a function name stands for. -/
def UnaryOp.ofFunction? (name : String) : Option UnaryOp :=
  if name = "sqrt" then some .sqrt
  else if name = "sq" then some .square
  else if name = "sin" then some .sin
  else if name = "cos" then some .cos
  else none

/-- The expression of a formula whose names are resolved. -/
def Formula.resolve (lookup : String → Option Handle) :
    Formula → Except ExpressionError (Expr Float)
  | .number v => .ok (.const v)
  | .variable name =>
    match lookup name with
    | some p => .ok (.param p)
    | none => .error (.undefinedVariable name)
  | .negate a => do
    let a ← a.resolve lookup
    return a.negate
  | .binary op a b => do
    let a ← a.resolve lookup
    let b ← b.resolve lookup
    return .binary op a b
  | .call name a => do
    let a ← a.resolve lookup
    match UnaryOp.ofFunction? name with
    | some op => return .unary op a
    | none => throw (.undefinedFunction name)

/-- The first of the parameters with a symbol. -/
def Store.bySymbol? (s : Store Float) (params : List Handle) (symbol : String) : Option Handle :=
  params.find? fun p => (s.get p).symbol == symbol

/-- The expression that a text writes, when variables stand for the parameters that are looked up. -/
def Expr.parseWith (lookup : String → Option Handle) (text : String) :
    Except ExpressionError (Expr Float) :=
  match Formula.parse text.toList with
  | .ok f => f.resolve lookup
  | .error e => .error (.ofSyntax e)

/-- The expression that a text writes over the given parameters. -/
def Expr.parse (s : Store Float) (params : List Handle) (text : String) :
    Except ExpressionError (Expr Float) :=
  parseWith (s.bySymbol? params) text

end SketchSolver
