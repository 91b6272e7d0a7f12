import SketchSolver.Expr.Freeze

/-!
# Equations

An equation drives an expression, its residual, to zero. Equations are kept in a list by id;
the tag says which part of a solve has taken an equation: zero for the main system, the number
of the group in which it was solved alone, or `usedUpTag`.

Correspondence with the program:
- `Equation` is its `Equation`, and `usedUpTag` is `EQ_SUBSTITUTED`. Tags have 32 bits there.
- `EquationList` is its `IdList` of equations. An equation carries its own id, so the key is a
  field and no store is needed. A parameter's is in the store, and so `ParamList` has its own
  versions of these operations.
- `numbered` and `addFresh?` are the two halves of `add_and_assign_id`: the id is set before the
  list is searched for it. `setTag` is `find_by_id_mut` with the write that follows it.
-/

namespace SketchSolver

/-- The tag of an equation that was used up by eliminating a parameter. -/
def usedUpTag : Nat := 20000

/-- An expression that is to be zero. -/
structure Equation (α : Type) where
  id : Int := unassigned
  expr : Expr α
  /-- Zero while the equation belongs to the main system. -/
  tag : Nat := 0
  deriving Repr

/-- A list of equations by id. -/
abbrev EquationList (α : Type) := IdList (Equation α)

namespace EquationList

variable {α : Type}

/-- The equation with an id. -/
def byId? (l : EquationList α) (id : Int) : Option (Equation α) := l.find? Equation.id id

/-- The list with an equation under the id that it has, unless that id is taken. -/
def add? (l : EquationList α) (e : Equation α) : Option (EquationList α) := l.insert? Equation.id e

/-- The equation under the next free id of the list. -/
def numbered (l : EquationList α) (e : Equation α) : Equation α :=
  { e with id := l.maxId Equation.id + 1 }

/-- The list with an equation under the next free id. -/
def addFresh? (l : EquationList α) (e : Equation α) : Option (EquationList α) :=
  l.add? (l.numbered e)

/-- The list with all tags cleared. -/
def clearTags (l : EquationList α) : EquationList α := l.map ({ · with tag := 0 })

/-- The list with the tag of the equation with an id changed. -/
def setTag (l : EquationList α) (id : Int) (tag : Nat) : EquationList α :=
  match l.position Equation.id id with
  | .occupied i => ⟨l.items.modify i ({ · with tag := tag })⟩
  | .vacant _ => l

end EquationList

end SketchSolver
