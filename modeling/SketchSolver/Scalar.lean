/-!
# Scalars

The solver is written once, over any type of scalars that has the operations it calls. It runs
over doubles; over the real numbers, or over an exact ordered field, the same definitions are
the mathematics that the doubles approximate.

Arithmetic and order are the core classes. `Elementary` adds the functions that an expression
may apply.

Correspondence with the program:
- All its numbers are doubles, with the arithmetic of the machine, and so is everything that
  runs here. Statements about what the doubles approximate take the reals or a field.
- Whether a value is no number shows in that it differs from itself, so `isNaN` asks for a test
  of equality and nothing else. Where equality is that of a field it is never true.
- The constants 2 and 0.5 of derivatives are `two` and `half`. Over doubles both are exact.
-/

namespace SketchSolver

/-- The elementary functions that an expression may apply. -/
class Elementary (α : Type) where
  sqrt : α → α
  sin : α → α
  cos : α → α

instance : Elementary Float := ⟨Float.sqrt, Float.sin, Float.cos⟩

namespace Scalar

/-- The absolute value. -/
def abs {α : Type} [Zero α] [Neg α] [LT α] [DecidableLT α] (x : α) : α :=
  if x < 0 then -x else x

/-- Whether a value is no number, which shows in that it differs from itself. -/
def isNaN {α : Type} [BEq α] (x : α) : Bool := x != x

/-- The sum of two ones. -/
def two {α : Type} [One α] [Add α] : α := 1 + 1

/-- One divided by two. -/
def half {α : Type} [One α] [Add α] [Div α] : α := 1 / (1 + 1)

end Scalar

end SketchSolver
