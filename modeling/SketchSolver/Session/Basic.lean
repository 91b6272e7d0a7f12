import SketchSolver.Constraint.Record
import SketchSolver.Space.Solving

/-!
# Sessions

A session is a sketch under edit: the sketch, the spaces that host its constraints, and a
lock. A solve that fails locks the session, and it stays so until `solveFine` is asked for,
which the removal of constraints does. In a transaction solving is put off until the end.

An operation that fails keeps what it has done so far, so every operation yields a result
and a session. The spaces share the parameters of the sketch: what one space does to them
the next one finds, which is why the loops over the spaces hand the sketch on.

Correspondence with the program:
- `Session` is its `ConstraintManager`, and the methods have their names here. `with_config`
  is `create`, `set_config` is `withSettings`, `is_locked` is the field `locked`. Shapes are
  entered into the field `sketch`, where the program hands out a reference (`layer_mut`).
- The program changes the manager in place; here an operation takes a session and yields one.
- `onEach` is the loop of `solve` and of `finish_transaction`, which goes on after a failure
  and remembers the first; `untilFailure` is the loop of `prepare`, which stops there.
- The program sets the lock inside the loop, once for each space that fails, and `lockOn`
  sets it after the loop. No space reads the lock, so nothing can tell the difference.
- `addSpacesUpTo` is the loop of `restore` that adds spaces until an index exists.
-/

namespace SketchSolver

/-- A sketch and its constraints under edit. -/
structure Session (α : Type) where
  sketch : Sketch α
  /-- The spaces, each at the position of its index. -/
  spaces : List (Space α)
  settings : Settings α
  /-- Whether solving is put off. -/
  inTransaction : Bool := false
  /-- Whether a solve failed and nothing was done about it since. -/
  locked : Bool := false

namespace Session

variable {α : Type}

/-- A session with one empty space. -/
def create (sketch : Sketch α) (settings : Settings α) : Session α :=
  { sketch, spaces := [Space.create 0 settings], settings }

/-- The space at an index. -/
def space (s : Session α) (index : Nat) : Except (Failure α) (Space α) :=
  match s.spaces[index]? with
  | some sp => .ok sp
  | none => .error (.spaceNotFound index)

/-- The constraints of all spaces, space by space. -/
def constraints (s : Session α) : List Constraint := s.spaces.flatMap (·.constraints)

/-- The constraint with an id. -/
def constraint? (s : Session α) (id : ConstraintId) : Option Constraint :=
  s.spaces.findSome? fun sp => sp.constraint? id

/-- The stored form of all constraints. -/
def records (s : Session α) : List Record := s.constraints.map (·.record)

/-- The session with other settings for all spaces. -/
def withSettings (s : Session α) (settings : Settings α) : Session α :=
  { s with settings, spaces := s.spaces.map fun sp => sp.withSettings settings }

/-- The session with one more space, and its index. -/
def addSpace (s : Session α) : Nat × Session α :=
  let index := s.spaces.length
  (index, { s with spaces := s.spaces ++ [Space.create index s.settings] })

/-- The session with as many spaces as an index needs. -/
def addSpacesUpTo (s : Session α) (index : Nat) : Session α :=
  (List.range (index + 1 - s.spaces.length)).foldl (fun s _ => s.addSpace.2) s

/-- The session with one empty space in place of all. The sketch keeps what is registered on it. -/
def reset (s : Session α) : Session α := { s with spaces := [Space.create 0 s.settings] }

/-- The session in which solving is put off. -/
def startTransaction (s : Session α) : Session α :=
  { s with inTransaction := true, spaces := s.spaces.map (·.startTransaction) }

/-- Clears spaces one after the other. -/
def clearSpaces : List (Space α) → Sketch α → List (Space α) × Sketch α
  | [], sk => ([], sk)
  | sp :: rest, sk =>
    let (sp, sk) := sp.clear sk
    let (rest, sk) := clearSpaces rest sk
    (sp :: rest, sk)

/-- The session without constraints. -/
def clear (s : Session α) : Session α :=
  let (spaces, sketch) := clearSpaces s.spaces s.sketch
  { s with spaces, sketch }

/-! ## All spaces at once -/

/-- An operation on a space and the sketch. -/
abbrev SpaceAction (α β : Type) := Space α → Sketch α → Except (Failure α) β × Space α × Sketch α

/-- Applies an operation to every space, and tells the first failure. -/
def onEach {β : Type} (act : SpaceAction α β) :
    List (Space α) → Sketch α → Option (Failure α) × List (Space α) × Sketch α
  | [], sk => (none, [], sk)
  | sp :: rest, sk =>
    let (result, sp, sk) := act sp sk
    let (later, rest, sk) := onEach act rest sk
    match result with
    | .ok _ => (later, sp :: rest, sk)
    | .error e => (some e, sp :: rest, sk)

/-- Applies an operation to one space after the other until it fails. -/
def untilFailure (act : SpaceAction α Unit) :
    List (Space α) → Sketch α → Except (Failure α) Unit × List (Space α) × Sketch α
  | [], sk => (.ok (), [], sk)
  | sp :: rest, sk =>
    match act sp sk with
    | (.error e, sp, sk) => (.error e, sp :: rest, sk)
    | (.ok (), sp, sk) =>
      let (result, rest, sk) := untilFailure act rest sk
      (result, sp :: rest, sk)

/-- Prepares all spaces for the entity that is dragged, if any. -/
def prepare [Zero α] (s : Session α) (dragged : Option EntityId) (force : Bool) :
    Except (Failure α) Unit × Session α :=
  let act (sp : Space α) (sk : Sketch α) := sp.prepare sk dragged force
  let (result, spaces, sketch) := untilFailure act s.spaces s.sketch
  (result, { s with spaces, sketch })

/-- Prepares all spaces for no dragged entity, unless solving is put off. -/
def refresh [Zero α] (s : Session α) : Except (Failure α) Unit × Session α :=
  if s.inTransaction then (.ok (), s) else s.prepare none false

/-- The outcome of an operation on every space. A failure locks the session. -/
def lockOn (s : Session α) :
    Option (Failure α) × List (Space α) × Sketch α → Except (Failure α) Unit × Session α
  | (none, spaces, sketch) => (.ok (), { s with spaces, sketch })
  | (some e, spaces, sketch) => (.error e, { s with spaces, sketch, locked := true })

section Solve

variable [Zero α] [One α] [Add α] [Sub α] [Mul α] [Div α] [Neg α] [LT α] [LE α] [BEq α]
variable [DecidableLT α] [DecidableLE α] [Elementary α]

/-- Ends the transaction and solves every space. -/
def finishTransaction (s : Session α) : Except (Failure α) Unit × Session α :=
  let act (sp : Space α) (sk : Sketch α) := sp.finishTransaction sk
  let s := { s with inTransaction := false }
  match s.lockOn (onEach act s.spaces s.sketch) with
  | (.error e, s) => (.error e, s)
  | (.ok (), s) => s.refresh

/-- Solves every space, unless the session is locked. -/
def solve (s : Session α) (rough : Bool) : Except (Failure α) Unit × Session α :=
  if s.locked then (.error .locked, s)
  else
    let act (sp : Space α) (sk : Sketch α) := sp.solveNow sk rough
    s.lockOn (onEach act s.spaces s.sketch)

/-- Unlocks a locked session, and prepares and solves all spaces. -/
def solveFine (s : Session α) : Except (Failure α) Unit × Session α :=
  if !s.locked then (.ok (), s)
  else
    match { s with locked := false }.prepare none true with
    | (.error e, s) => (.error e, s)
    | (.ok (), s) => s.solve false

/-- Moves an entity and solves roughly around it. In a locked session the entity moves, and that is
all. -/
def drag (s : Session α) (id : EntityId) (dx dy : α) : Except (Failure α) Unit × Session α :=
  match s.prepare (some id) s.locked with
  | (.error e, s) => (.error e, s)
  | (.ok (), s) =>
    match s.sketch.translate id dx dy with
    | .error e => (.error e, s)
    | .ok sketch => { s with sketch }.solve true

/-- Ends a drag with a precise solve. -/
def endDrag (s : Session α) : Except (Failure α) Unit × Session α := s.solve false

end Solve

end Session

end SketchSolver
