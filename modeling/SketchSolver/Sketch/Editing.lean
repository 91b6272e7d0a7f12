import SketchSolver.Failure
import SketchSolver.Sketch.Basic

/-!
# Editing a sketch

Operations on an entity by its id. Each fails when the sketch does not have the entity, and
then changes nothing. They look the entity up first and touch the store after that, so the
check is all that can fail.

Correspondence with the program:
- `entity` and `remove` are the methods of `Layer` with these names. The removed ids are those
  of the subtree from its end, so the entity comes before its points.
- `translate` is the look-up in `drag` together with `translate` of the entity found. All points
  of a shape are moved, in order; a radius stays. Where two points share a handle it is moved
  twice, here as there.
- `setValues` is what a caller does through the handles of an entity, one `set` after another.
  It is no method of its own there.
-/

namespace SketchSolver.Sketch

variable {α : Type}

/-- The entity with an id. -/
def entity (sk : Sketch α) (id : EntityId) : Except (Failure α) Entity :=
  match sk.entity? id with
  | some e => .ok e
  | none => .error (.entityNotFound id)

/-- Removes an entity and its points. The result tells what was removed, the entity first. -/
def remove (sk : Sketch α) (id : EntityId) : Except (Failure α) (List EntityId × Sketch α) := do
  let _ ← sk.entity id
  let removed := (sk.subtree id).reverse
  return (removed, sk.without removed)

section Values

variable [Zero α]

/-- Moves an entity by a vector. -/
def translate [Add α] (sk : Sketch α) (id : EntityId) (dx dy : α) :
    Except (Failure α) (Sketch α) := do
  let e ← sk.entity id
  return { sk with store := e.shape.translate sk.store dx dy }

/-- Gives the parameters of an entity values, in order, as many as there are. -/
def setValues (sk : Sketch α) (id : EntityId) (values : List α) :
    Except (Failure α) (Sketch α) := do
  let e ← sk.entity id
  let store := (e.shape.params.zip values).foldl (fun s (p, v) => s.setValue p v) sk.store
  return { sk with store }

end Values

end SketchSolver.Sketch
