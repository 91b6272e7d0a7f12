import SketchSolver.Constraint.Residuals
import SketchSolver.Sketch.Editing

/-!
# Constraints

A constraint is a relation between entities of a sketch. The parameters that it reads are
collected when it is created, so it keeps them when its entities are removed. Nothing ties it
to the sketch after that but the ids of its entities and its own id.

Correspondence with the program:
- `create` is `new`. The three checks come in its order: the number of entities, then each
  entity in turn, then the number of parameters. An id is given out only when all have passed,
  so a constraint that cannot be created uses up none.
- `residuals` is the generator of the schema, called with the parameters. Their number was
  checked at creation, and the generators check it once more; a constraint made by `create`
  never fails there.
- `addExpr` and `addConstraint` are `push` and `collect_equations`: every expression becomes an
  equation under the next free id of the list.
- `undecorate` is `remove_decoration`, and `text` is the display form.
-/

namespace SketchSolver

/-- A relation between entities of a sketch. -/
structure Constraint where
  id : ConstraintId
  kind : Kind
  entities : List EntityId
  /-- The parameters of the entities, one entity after the other. -/
  params : List Handle
  decoration : Option DecorationId := none
  /-- The index of the space that hosts it. -/
  space : Option Nat := none
  deriving DecidableEq, Repr

namespace Constraint

variable {α : Type}

/-- A new constraint, and the sketch that has given it an id. It fails for the wrong number of
entities, for the first entity that the sketch does not have, and for the wrong number of
parameters, in this order. -/
def create (sk : Sketch α) (kind : Kind) (ids : List EntityId) :
    Except (Failure α) (Constraint × Sketch α) := do
  if ids.length ≠ kind.entityCount then throw (.wrongEntities kind ids.length)
  let entities ← ids.mapM sk.entity
  let params := entities.flatMap (·.shape.params)
  if params.length ≠ kind.paramCount then throw (.wrongParams kind params.length)
  let (id, sk) := sk.nextConstraint
  return ({ id, kind, entities := ids, params }, sk)

/-- The text of a constraint. -/
def text (c : Constraint) : String :=
  c.id.text ++ " " ++ c.kind.name ++ "(" ++ ", ".intercalate (c.entities.map (·.text)) ++ ")"

/-- The expressions that are zero when a constraint holds. -/
def residuals (c : Constraint) : Except (Failure α) (List (Expr α)) :=
  match c.kind.residuals? c.params with
  | some es => .ok es
  | none => .error (.wrongParams c.kind c.params.length)

/-- The constraint without its decoration, and the sketch in which that is free. -/
def undecorate (c : Constraint) (sk : Sketch α) : Constraint × Sketch α :=
  match c.decoration with
  | some d => ({ c with decoration := none }, sk.free d)
  | none => (c, sk)

end Constraint

namespace EquationList

variable {α : Type}

/-- The list with one more equation for an expression. -/
def addExpr (l : EquationList α) (e : Expr α) : Except (Failure α) (EquationList α) :=
  match l.addFresh? { expr := e } with
  | some l => .ok l
  | none => .error (.duplicateId (l.numbered { expr := e }).id)

/-- The list with the equations of a constraint. -/
def addConstraint (l : EquationList α) (c : Constraint) :
    Except (Failure α) (EquationList α) := do
  let es ← c.residuals
  es.foldlM addExpr l

end EquationList

end SketchSolver
