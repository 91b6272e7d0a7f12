import SketchSolver.Session.Basic

/-!
# Editing a session

Constraints are added one by one, each with a solve, or as a batch with one solve; they are
removed on their own or with their entities; and they are restored from records. Each
operation is a loop over its list, written as a recursion that hands the session on, with
what happens to one item as a definition of its own.

Correspondence with the program:
- `detach` is its `detach`; the search for the first space that hosts the id and the removal
  there are one recursion (`detachFrom`). `detachEach` is the loop of `remove_constraints`,
  which gives up at the first id that is not found and keeps what is removed already.
- `removeEntity` is the body of the loop of `remove_entities`. An id without an entity and
  the id of a point of another entity are passed over. A constraint that is registered but
  not hosted is only reported in the program's log, so here its failure is dropped. The
  entity was found before, so its removal cannot fail, and `without` stands in for it.
- The sorted list of ids without repetitions is `Ascending.ofList`.
- `add_constraints` and `restore` end with the same loop between the start and the end of a
  transaction. It is written once, as `addBatch`; for `add_constraints` all indices are zero.
  A batch that fails ends the transaction and drops what that yields.
- `constrainDecorated` is `decorated`; `coincide` is `coincide_points`.
- `rebuild` is the first loop of `restore`. It adds the spaces that a record asks for before
  it looks at the kind and the entities, so a record that fails leaves its spaces behind.
-/

namespace SketchSolver.Session

variable {α : Type}

/-! ## Removing from the spaces -/

/-- Takes a constraint out of the first space that hosts it. -/
def detachFrom (id : ConstraintId) : List (Space α) → Sketch α →
    Except (Failure α) Constraint × List (Space α) × Sketch α
  | [], sk => (.error (.constraintNotFound id), [], sk)
  | sp :: rest, sk =>
    if sp.contains id then
      let (result, sp, sk) := sp.removeConstraint sk id
      (result, sp :: rest, sk)
    else
      let (result, rest, sk) := detachFrom id rest sk
      (result, sp :: rest, sk)

/-- Takes a constraint out of its space. -/
def detach (s : Session α) (id : ConstraintId) : Except (Failure α) Constraint × Session α :=
  let (result, spaces, sketch) := detachFrom id s.spaces s.sketch
  (result, { s with spaces, sketch })

/-- Takes constraints out of their spaces, one after the other until one is not found. -/
def detachEach : List ConstraintId → Session α → Except (Failure α) (List Constraint) × Session α
  | [], s => (.ok [], s)
  | id :: ids, s =>
    match s.detach id with
    | (.error e, s) => (.error e, s)
    | (.ok c, s) =>
      match detachEach ids s with
      | (.error e, s) => (.error e, s)
      | (.ok cs, s) => (.ok (c :: cs), s)

/-- The constraints registered on an entity and its points, in ascending order. -/
def attached (s : Session α) (id : EntityId) : List ConstraintId :=
  Ascending.ofList ((s.sketch.subtree id).flatMap s.sketch.constraintsOf)

/-- Takes an entity with its points off the sketch, and out of the spaces every constraint on any of
them. The id of a point of another entity is passed over, and so is one that is not there. -/
def removeEntity (s : Session α) (id : EntityId) : Session α :=
  match s.sketch.entity? id with
  | none => s
  | some e =>
    if e.parent.isSome then s
    else
      let s := (s.attached id).foldl (fun s c => (s.detach c).2) s
      { s with sketch := s.sketch.without (s.sketch.subtree id) }

section Solve

variable [Zero α] [One α] [Add α] [Sub α] [Mul α] [Div α] [Neg α] [LT α] [LE α] [BEq α]
variable [DecidableLT α] [DecidableLE α] [Elementary α]

/-! ## Adding -/

/-- Adds a constraint to the space at an index. -/
def addToSpace (s : Session α) (index : Nat) (c : Constraint) :
    Except (Failure α) ConstraintId × Session α :=
  match s.space index with
  | .error e => (.error e, s)
  | .ok sp =>
    let (result, sp, sketch) := sp.addConstraint s.sketch c
    (result.map fun () => c.id, { s with spaces := s.spaces.set index sp, sketch })

/-- Adds a constraint to the first space. -/
def add (s : Session α) (c : Constraint) : Except (Failure α) ConstraintId × Session α :=
  s.addToSpace 0 c

/-- Adds constraints, each to the space at its index, until one cannot be added. -/
def addEach : List (Nat × Constraint) → Session α →
    Except (Failure α) (List ConstraintId) × Session α
  | [], s => (.ok [], s)
  | (index, c) :: rest, s =>
    match s.addToSpace index c with
    | (.error e, s) => (.error e, s)
    | (.ok id, s) =>
      match addEach rest s with
      | (.error e, s) => (.error e, s)
      | (.ok ids, s) => (.ok (id :: ids), s)

/-- Adds constraints, each to the space at its index, with one solve for all. -/
def addBatch (s : Session α) (cs : List (Nat × Constraint)) :
    Except (Failure α) (List ConstraintId) × Session α :=
  match addEach cs s.startTransaction with
  | (.error e, s) => (.error e, s.finishTransaction.2)
  | (.ok ids, s) =>
    let (result, s) := s.finishTransaction
    (result.map fun () => ids, s)

/-- Adds constraints to the first space with one solve for all. -/
def addConstraints (s : Session α) (cs : List Constraint) :
    Except (Failure α) (List ConstraintId) × Session α :=
  s.addBatch (cs.map fun c => (0, c))

/-- Creates a constraint and adds it to the first space. -/
def constrain (s : Session α) (kind : Kind) (ids : List EntityId) :
    Except (Failure α) ConstraintId × Session α :=
  match Constraint.create s.sketch kind ids with
  | .error e => (.error e, s)
  | .ok (c, sketch) => { s with sketch }.add c

/-- Creates a constraint with a decoration, and adds it to the first space. -/
def constrainDecorated (s : Session α) (kind : Kind) (ids : List EntityId) :
    Except (Failure α) ConstraintId × Session α :=
  match Constraint.create s.sketch kind ids with
  | .error e => (.error e, s)
  | .ok (c, sketch) =>
    let (d, sketch) := sketch.decorate
    { s with sketch }.add { c with decoration := some d }

/-- Makes two points coincide. -/
def coincide (s : Session α) (p q : EntityId) : Except (Failure α) ConstraintId × Session α :=
  s.constrain .coincident [p, q]

/-- Puts a point on the line of a segment. -/
def pointOnLine (s : Session α) (point line : EntityId) :
    Except (Failure α) ConstraintId × Session α :=
  s.constrainDecorated .pointOnLine [point, line]

/-- Puts a point on a circle. -/
def pointOnCircle (s : Session α) (point circle : EntityId) :
    Except (Failure α) ConstraintId × Session α :=
  s.constrainDecorated .pointOnCircle [point, circle]

/-! ## Removing -/

/-- Removes constraints, unlocks the session, and prepares it anew. -/
def removeConstraints (s : Session α) (ids : List ConstraintId) :
    Except (Failure α) (List Constraint) × Session α :=
  match detachEach ids s with
  | (.error e, s) => (.error e, s)
  | (.ok removed, s) =>
    match s.solveFine with
    | (.error e, s) => (.error e, s)
    | (.ok (), s) =>
      let (result, s) := s.refresh
      (result.map fun () => removed, s)

/-- Removes entities, with their points and every constraint on any of them, and solves once. -/
def removeEntities (s : Session α) (ids : List EntityId) : Except (Failure α) Unit × Session α :=
  (ids.foldl removeEntity s.startTransaction).finishTransaction

/-! ## Restoring -/

/-- The constraints of records, each with the index of its space. Spaces are added as records need
them. -/
def rebuild : List Record → Session α → Except (Failure α) (List (Nat × Constraint)) × Session α
  | [], s => (.ok [], s)
  | r :: rest, s =>
    let index := r.space.getD 0
    let s := s.addSpacesUpTo index
    match Constraint.ofRecord s.sketch r with
    | .error e => (.error e, s)
    | .ok (c, sketch) =>
      match rebuild rest { s with sketch } with
      | (.error e, s) => (.error e, s)
      | (.ok cs, s) => (.ok ((index, c) :: cs), s)

/-- Adds the constraints of records with one solve for all. -/
def restore (s : Session α) (records : List Record) :
    Except (Failure α) (List ConstraintId) × Session α :=
  match rebuild records s with
  | (.error e, s) => (.error e, s)
  | (.ok cs, s) => s.addBatch cs

end Solve

end SketchSolver.Session
