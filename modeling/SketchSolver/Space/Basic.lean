import SketchSolver.Constraint.Basic

/-!
# Spaces

A space hosts constraints that are solved together. `prepare` sorts them by kind, numbers the
parameters of the sketch and of the constraints in the order in which they are met, and loads
the equations of the constraints as the problem to solve. Ids are given anew each time: a
parameter has the id that the space prepared last has given it.

An operation that fails keeps what it has done so far.

Correspondence with the program:
- `Space` is its `SolverSpace`, `freedom` is the field `dof`, `problem` the field `system`, and
  `unknownFreedom` is `UNKNOWN_DOF`. The snapshot is no field: it is written at the start of a
  solve and read at its end only, so it is local to `solve`.
- `build` is `evaluate_and_build`, in its two halves: `number`, which changes the store, and
  `loadEquations`, which reads it. `met` is the list of the parameters found, and `forgetParams`
  is the private `reset`.
- The conflicting ids are a set there and a list here; both are only asked for membership.
- The sort of the program is stable, and so is `mergeSort`.
- `removeConstraint` takes out the first constraint with the id, as `position` finds it there.
- `clear` asks for the last constraint as long as there is one; here the ids are listed before
  the first removal. Ids do not repeat in a space, so both remove the same constraints in turn.
- A failed numbering keeps the parameters numbered so far. It cannot happen, since every id is
  fresh, but the list's own check can fail and its outcome is passed on.
-/

namespace SketchSolver

/-- The degrees of freedom that are reported before the first solve. -/
def unknownFreedom : Nat := 1024

/-- Constraints that are solved together. -/
structure Space (α : Type) where
  /-- The position among the spaces of a session. -/
  index : Nat
  /-- The degrees of freedom that the last solve left. -/
  freedom : Nat := unknownFreedom
  /-- Whether solving is put off. -/
  inTransaction : Bool := false
  constraints : List Constraint := []
  /-- The constraints that take no part. -/
  conflicting : List ConstraintId := []
  /-- All parameters that were numbered. -/
  params : ParamList := IdList.empty
  /-- The parameters of the dragged entity. -/
  interactive : List Handle := []
  dragged : Option EntityId := none
  problem : Problem α

namespace Space

variable {α : Type}

/-- A space without constraints. -/
def create (index : Nat) (settings : Settings α) : Space α := { index, problem := { settings } }

/-- The constraint with an id. -/
def constraint? (sp : Space α) (id : ConstraintId) : Option Constraint :=
  sp.constraints.find? fun c => c.id = id

/-- Whether the space hosts a constraint with an id. -/
def contains (sp : Space α) (id : ConstraintId) : Bool := (sp.constraint? id).isSome

/-- The constraints that take part, in order. -/
def valid (sp : Space α) : List Constraint :=
  sp.constraints.filter fun c => c.id ∉ sp.conflicting

/-- The space with other settings. -/
def withSettings (sp : Space α) (settings : Settings α) : Space α :=
  { sp with problem := { sp.problem with settings } }

/-- The space in which solving is put off. -/
def startTransaction (sp : Space α) : Space α := { sp with inTransaction := true }

/-- The space without numbered and without dragged parameters. -/
def forgetParams (sp : Space α) : Space α := { sp with params := IdList.empty, interactive := [] }

/-! ## Loading -/

section Loading

variable [Zero α]

/-- Gives every parameter that the list does not have yet the next id, in order. It would fail with an
id that is taken. -/
def numberParams : List Handle → ParamList → Store α → Except Int Unit × ParamList × Store α
  | [], l, s => (.ok (), l, s)
  | p :: ps, l, s =>
    if l.has s p then numberParams ps l s
    else
      match l.addFresh? s p with
      | (some l, s) => numberParams ps l s
      | (none, s) => (.error (s.id p), l, s)

/-- The equations of constraints, one constraint after the other. -/
def equationsOf (cs : List Constraint) : Except (Failure α) (EquationList α) :=
  cs.foldlM EquationList.addConstraint IdList.empty

/-- The parameters of the sketch and then of the constraints, as often as they are met. -/
def met (sp : Space α) (sk : Sketch α) : List Handle :=
  sk.params ++ sp.constraints.flatMap (·.params)

/-- The space and the sketch after all parameters were numbered anew. -/
def number (sp : Space α) (sk : Sketch α) : Except (Failure α) Unit × Space α × Sketch α :=
  let found := sp.met sk
  match numberParams found IdList.empty (found.foldl Store.detach sk.store) with
  | (.ok (), params, store) => (.ok (), { sp with params }, { sk with store })
  | (.error id, params, store) =>
    (.error (.duplicateId id), { sp with params }, { sk with store })

/-- The space with the equations of its constraints loaded as the problem to solve. -/
def loadEquations (sp : Space α) (sk : Sketch α) : Except (Failure α) Unit × Space α :=
  match equationsOf sp.valid with
  | .error e => (.error e, sp)
  | .ok equations =>
    match sp.problem.load sk.store equations sp.interactive with
    | (.ok (), problem) => (.ok (), { sp with problem })
    | (.error id, problem) => (.error (.duplicateId id), { sp with problem })

/-- Numbers the parameters and loads the equations. -/
def build (sp : Space α) (sk : Sketch α) : Except (Failure α) Unit × Space α × Sketch α :=
  match sp.number sk with
  | (.error e, sp, sk) => (.error e, sp, sk)
  | (.ok (), sp, sk) =>
    let (result, sp) := sp.loadEquations sk
    (result, sp, sk)

/-- The constraints sorted by the code of their kind. Those of one kind keep their order. -/
def sortConstraints (cs : List Constraint) : List Constraint :=
  cs.mergeSort fun c d => c.kind.code ≤ d.kind.code

/-- Prepares the space for the entity that is dragged, if any. When it is the one that was dragged
before, everything is in place, and is left so unless `force` is given. -/
def prepare (sp : Space α) (sk : Sketch α) (dragged : Option EntityId) (force : Bool) :
    Except (Failure α) Unit × Space α × Sketch α :=
  if dragged.isSome && !force && sp.dragged == dragged then (.ok (), sp, sk)
  else
    let sp := { sp.forgetParams with constraints := sortConstraints sp.constraints, dragged }
    match dragged with
    | none => sp.build sk
    | some id =>
      match sk.entity id with
      | .error e => (.error e, sp, sk)
      | .ok e => { sp with interactive := e.shape.params }.build sk

end Loading

/-! ## Removing -/

/-- Takes a constraint out of the space, and off its entities. Its decoration becomes free. -/
def removeConstraint (sp : Space α) (sk : Sketch α) (id : ConstraintId) :
    Except (Failure α) Constraint × Space α × Sketch α :=
  match sp.constraint? id with
  | none => (.error (.constraintNotFound id), sp, sk)
  | some c =>
    let sp := { sp with
      constraints := sp.constraints.eraseP fun c => c.id = id
      conflicting := sp.conflicting.filter (· ≠ id) }
    let (c, sk) := c.undecorate (sk.unregister id c.entities)
    (.ok { c with space := none }, sp, sk)

/-- Takes constraints out of the space, one after the other. -/
def removeAll (sp : Space α) (sk : Sketch α) : List ConstraintId → Space α × Sketch α
  | [] => (sp, sk)
  | id :: ids =>
    let (_, sp, sk) := sp.removeConstraint sk id
    removeAll sp sk ids

/-- Takes all constraints out of the space, the last one first. -/
def clear (sp : Space α) (sk : Sketch α) : Space α × Sketch α :=
  let (sp, sk) := sp.removeAll sk (sp.constraints.map (·.id)).reverse
  (sp.forgetParams, sk)

end Space

end SketchSolver
