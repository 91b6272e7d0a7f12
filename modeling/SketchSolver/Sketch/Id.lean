/-!
# Ids of a sketch

Entities, constraints and decorations are numbered apart from each other, from one on, and no
number is given out twice. The three sorts of ids are types of their own, so an id of one sort
cannot be looked up as one of another.

The program's `EntityId`, `ConstraintId` and `DecorationId` hold numbers of 64 bits, counted up
by one for each id that is given out. Here they are natural numbers, so the count cannot run
over; it would take more ids than a machine can hand out. `text` is the display form: `#3` for
an entity, `c3` for a constraint. Only constraints and decorations are kept in sets, so only
they are ordered.
-/

namespace SketchSolver

/-- The id of an entity. -/
structure EntityId where
  number : Nat
  deriving DecidableEq, Repr

/-- The id of a constraint. -/
structure ConstraintId where
  number : Nat
  deriving DecidableEq, Repr

/-- The id of a mark that shows a constraint in the drawing. -/
structure DecorationId where
  number : Nat
  deriving DecidableEq, Repr

namespace EntityId

/-- The text of an entity's id. -/
def text (e : EntityId) : String := "#" ++ toString e.number

end EntityId

namespace ConstraintId

instance : LT ConstraintId := ⟨fun c d => c.number < d.number⟩

instance : DecidableLT ConstraintId := fun c d => inferInstanceAs (Decidable (c.number < d.number))

/-- The text of a constraint's id. -/
def text (c : ConstraintId) : String := "c" ++ toString c.number

end ConstraintId

namespace DecorationId

instance : LT DecorationId := ⟨fun d e => d.number < e.number⟩

instance : DecidableLT DecorationId := fun d e => inferInstanceAs (Decidable (d.number < e.number))

end DecorationId

end SketchSolver
