import SketchSolver.Equality.Groups
import SketchSolver.Settings

/-!
# Problems

A problem is a set of equations together with the parameters that they mention. Some
parameters are dragged: they are to move as little as possible. They are known by their ids,
since that is what a solve asks for.

Correspondence with the program:
- `Problem` is its `System`, and `load` is the method `prepare`. The set of dragged ids is a list
  here and only asked for membership.
- The program goes through the equations and through the parameters of each; here the
  parameters of all equations are one list, in the same order, and `addMissing` goes through it.
- Parameters must come with ids that are different for different parameters. Where two share
  one, `has` takes the second for the first, so it is passed over, here as there.
- A load that fails has replaced the equations and has listed the parameters so far, and leaves
  the dragged ids from before.
-/

namespace SketchSolver

/-- Equations to be solved. -/
structure Problem (α : Type) where
  settings : Settings α
  /-- The parameters that the equations mention. -/
  params : ParamList := IdList.empty
  equations : EquationList α := IdList.empty
  /-- The ids of the dragged parameters. -/
  dragged : List Int := []

namespace Problem

variable {α : Type} [Zero α]

/-- The list with every parameter that it does not have yet, in order. An id that another parameter
has already stops it. -/
def addMissing (s : Store α) : List Handle → ParamList → Option Int × ParamList
  | [], l => (none, l)
  | p :: ps, l =>
    if l.has s p then addMissing s ps l
    else
      match l.add? s p with
      | some l => addMissing s ps l
      | none => (some (s.id p), l)

/-- The problem with other equations and dragged parameters. It fails with the id of a parameter that
is taken by another one. -/
def load (p : Problem α) (s : Store α) (equations : EquationList α) (dragged : List Handle) :
    Except Int Unit × Problem α :=
  let mentioned := equations.toList.flatMap fun e => e.expr.params
  match addMissing s mentioned IdList.empty with
  | (some id, params) => (.error id, { p with equations, params })
  | (none, params) => (.ok (), { p with equations, params, dragged := dragged.map s.id })

end Problem

end SketchSolver
