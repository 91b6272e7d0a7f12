import SketchSolver.Ascending
import SketchSolver.Sketch.Id
import SketchSolver.Sketch.Shape

/-!
# Sketches

A sketch holds entities and the parameters that they are made of. A shape is entered together
with its points, which are entities of their own and come before it; they share its
parameters. Each entity knows the constraints that were registered on it.

Points have no parts, so an entity and its parts are all there is to remove, and all a
constraint has to be registered on.

Correspondence with the program:
- `Sketch` is its `Layer`, and `Entity` what it calls a `LayerEntry`: the shape with its place
  among the others. The map from ids to entries is the list `entities`, in the order of ids.
- A shape brings its parameters along as shared handles. Here their fields lie in `store`, which
  keeps them when the entity is gone, as a handle held elsewhere keeps them there.
- `enter` is `add_entry`. It accepts any shape, also one whose handles other entities have:
  nothing in the program asks for new ones. `addPoint` to `addArc` are `add` for a shape that was
  just made.
- `add_entry` and `traverse` recur into the children. A shape has points only, and a point has
  no parts, so one level is all, and `enter` and `subtree` are written without recursion.
- `register` and `unregister` are `register_constraint` and `detach_constraint`. An entity that
  is met twice is changed twice there and once here, which makes no difference to a set.
- `isConstrained` is `constraint_exists`, `nextConstraint` is `allocate_constraint_id`, `decorate`
  is `allocate_decoration`, and `free` is `remove_and_free` without its answer.
-/

namespace SketchSolver

/-- An entity of a sketch. -/
structure Entity where
  id : EntityId
  shape : Shape
  /-- The entity that it is a point of. -/
  parent : Option EntityId
  /-- The points that were entered with it. -/
  children : List EntityId
  /-- The constraints registered on it, in ascending order. -/
  constraints : List ConstraintId := []
  deriving DecidableEq, Repr

/-- Entities with their parameters. -/
structure Sketch (α : Type) where
  name : String
  /-- All parameters, also those of entities that are gone. -/
  store : Store α := Store.empty
  /-- The entities in the order of their ids. -/
  entities : List Entity := []
  /-- The decorations in use, in ascending order. -/
  decorations : List DecorationId := []
  /-- How many ids were given to entities. -/
  entityCount : Nat := 0
  /-- How many ids were given to decorations. -/
  decorationCount : Nat := 0
  /-- How many ids were given to constraints. -/
  constraintCount : Nat := 0

namespace Sketch

variable {α : Type}

/-! ## Entities -/

/-- The entity with an id. -/
def entity? (sk : Sketch α) (id : EntityId) : Option Entity := sk.entities.find? fun e => e.id = id

/-- Whether the sketch has an entity with an id. -/
def contains (sk : Sketch α) (id : EntityId) : Bool := (sk.entity? id).isSome

/-- The points that were entered with an entity. -/
def childrenOf (sk : Sketch α) (id : EntityId) : List EntityId :=
  match sk.entity? id with
  | some e => e.children
  | none => []

/-- The entity that an entity is a point of. -/
def parentOf? (sk : Sketch α) (id : EntityId) : Option EntityId :=
  (sk.entity? id).bind (·.parent)

/-- The entities that are no points of another one. -/
def roots (sk : Sketch α) : List Entity := sk.entities.filter (·.parent.isNone)

/-- The parameters of all entities. One that several entities share comes once for each. -/
def params (sk : Sketch α) : List Handle := sk.entities.flatMap (·.shape.params)

/-- An entity after those of its points that the sketch has. -/
def subtree (sk : Sketch α) (id : EntityId) : List EntityId :=
  match sk.entity? id with
  | some e => e.children.filter sk.contains ++ [id]
  | none => []

/-- The sketch with a shape and its parts, which have the ids before that of the shape. -/
def enter (sk : Sketch α) (shape : Shape) : EntityId × Sketch α :=
  let parts := shape.parts
  let id : EntityId := ⟨sk.entityCount + parts.length + 1⟩
  let childId (i : Nat) : EntityId := ⟨sk.entityCount + i + 1⟩
  let children := parts.mapIdx fun i part =>
    { id := childId i, shape := part, parent := some id, children := [] }
  let entity := { id, shape, parent := none, children := children.map (·.id) }
  (id, { sk with entities := sk.entities ++ children ++ [entity], entityCount := id.number })

/-- The sketch with a new point. -/
def addPoint (sk : Sketch α) (x y : α) : EntityId × Sketch α :=
  let (p, store) := Point.create sk.store x y
  { sk with store }.enter (.point p)

/-- The sketch with a new segment. -/
def addSegment (sk : Sketch α) (x1 y1 x2 y2 : α) : EntityId × Sketch α :=
  let (a, store) := Point.create sk.store x1 y1
  let (b, store) := Point.create store x2 y2
  { sk with store }.enter (.segment a b)

/-- The sketch with a new circle. -/
def addCircle (sk : Sketch α) (x y radius : α) : EntityId × Sketch α :=
  let (c, store) := Point.create sk.store x y
  let (r, store) := store.add "r" radius
  { sk with store }.enter (.circle c r)

/-- The sketch with a new arc, from its start and end and its centre. -/
def addArc (sk : Sketch α) (x1 y1 x2 y2 cx cy : α) : EntityId × Sketch α :=
  let (a, store) := Point.create sk.store x1 y1
  let (b, store) := Point.create store x2 y2
  let (c, store) := Point.create store cx cy
  { sk with store }.enter (.arc a b c)

/-- The sketch without some entities. -/
def without (sk : Sketch α) (ids : List EntityId) : Sketch α :=
  { sk with entities := sk.entities.filter fun e => e.id ∉ ids }

/-! ## Constraints -/

/-- The sketch with the constraint sets of some entities and their points changed. -/
def changeConstraints (sk : Sketch α) (ids : List EntityId)
    (change : List ConstraintId → List ConstraintId) : Sketch α :=
  let affected := ids.flatMap sk.subtree
  { sk with
    entities := sk.entities.map fun e =>
      if e.id ∈ affected then { e with constraints := change e.constraints } else e }

/-- The sketch with a constraint registered on entities and their points. -/
def register (sk : Sketch α) (c : ConstraintId) (ids : List EntityId) : Sketch α :=
  sk.changeConstraints ids (Ascending.insert c)

/-- The sketch in which a constraint is not registered on entities and their points. -/
def unregister (sk : Sketch α) (c : ConstraintId) (ids : List EntityId) : Sketch α :=
  sk.changeConstraints ids fun cs => cs.filter (· ≠ c)

/-- The constraints registered on an entity. -/
def constraintsOf (sk : Sketch α) (id : EntityId) : List ConstraintId :=
  match sk.entity? id with
  | some e => e.constraints
  | none => []

/-- Whether any constraint is registered on an entity or its points. -/
def isConstrained (sk : Sketch α) (id : EntityId) : Bool :=
  (sk.subtree id).any fun each => !(sk.constraintsOf each).isEmpty

/-- A new id for a constraint. -/
def nextConstraint (sk : Sketch α) : ConstraintId × Sketch α :=
  (⟨sk.constraintCount + 1⟩, { sk with constraintCount := sk.constraintCount + 1 })

/-! ## Decorations -/

/-- A new decoration. -/
def decorate (sk : Sketch α) : DecorationId × Sketch α :=
  let d : DecorationId := ⟨sk.decorationCount + 1⟩
  (d, { sk with
    decorationCount := sk.decorationCount + 1
    decorations := Ascending.insert d sk.decorations })

/-- Whether a decoration is in use. -/
def hasDecoration (sk : Sketch α) (d : DecorationId) : Bool := sk.decorations.contains d

/-- The sketch without a decoration. -/
def free (sk : Sketch α) (d : DecorationId) : Sketch α :=
  { sk with decorations := sk.decorations.filter (· ≠ d) }

end Sketch

end SketchSolver
