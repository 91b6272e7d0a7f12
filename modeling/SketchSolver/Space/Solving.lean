import SketchSolver.Space.Basic

/-!
# Solving a space

A solve changes the parameters until all constraints of the space hold, or puts their values
back. A constraint that cannot be had together with the others is removed again.

The values are saved by id and not by handle. They are put back through the list of the
space, so a parameter whose id has changed since would get another one's value. That no id
changes during a solve is a fact about solves, and not built in here.

Correspondence with the program:
- `snapshot` is `make_snapshot`. The program collects a map, where a later entry replaces an
  earlier one with the same id; the list here may name an id more than once, with one value.
- `solve` yields the bare cause. `solveNow` is the method `solve`, with the cause wrapped as a
  failure that was rolled back. `addConstraint` wraps the cause again; the two wrappers that it
  has in the program are the one case `rejected` here.
- `reject` is the branch of `add_constraint` for a failed solve: the constraint is marked as
  conflicting, taken out, which removes the mark, and the space is built and solved without
  it. Whether that solve succeeds is only logged, so its result is dropped.
- After a successful solve the program looks the constraint up by its id to register it. Here
  its own entities are registered, which are the same, since ids do not repeat in a space.
-/

namespace SketchSolver.Space

variable {α : Type}

section Snapshot

variable [Zero α]

/-- The values of the parameters of all constraints that take part, by id. -/
def snapshot (sp : Space α) (s : Store α) : List (Int × α) :=
  let params := sp.valid.flatMap (·.params)
  (params.filter fun p => s.id p ≠ unassigned).map fun p => (s.id p, s.value p)

/-- The store in which a parameter of the space has an earlier value. -/
def restoreOne (params : ParamList) (s : Store α) (saved : Int × α) : Store α :=
  match params.byId? s saved.1 with
  | some p => s.setValue p saved.2
  | none => s

/-- The store in which the parameters of the space have the values of a snapshot. -/
def rollback (sp : Space α) (saved : List (Int × α)) (s : Store α) : Store α :=
  saved.foldl (restoreOne sp.params) s

end Snapshot

section Solve

variable [Zero α] [One α] [Add α] [Sub α] [Mul α] [Div α] [Neg α] [LT α] [LE α] [BEq α]
variable [DecidableLT α] [DecidableLE α] [Elementary α]

/-- Solves the loaded problem. When that fails, the parameters have their values from before. -/
def solve (sp : Space α) (sk : Sketch α) (rough : Bool) :
    Except (SolveFailure α) Report × Space α × Sketch α :=
  let saved := sp.snapshot sk.store
  match sp.problem.solve rough sk.store with
  | (.ok report, problem, store) =>
    (.ok report, { sp with problem, freedom := report.freedom }, { sk with store })
  | (.error e, problem, store) =>
    let sp := { sp with problem }
    (.error e, sp, { sk with store := sp.rollback saved store })

/-- Solves the loaded problem, as an operation of its own. -/
def solveNow (sp : Space α) (sk : Sketch α) (rough : Bool) :
    Except (Failure α) Report × Space α × Sketch α :=
  let (result, sp, sk) := sp.solve sk rough
  (result.mapError .rolledBack, sp, sk)

/-- Ends a transaction, and solves everything that was put off. -/
def finishTransaction (sp : Space α) (sk : Sketch α) :
    Except (Failure α) Report × Space α × Sketch α :=
  match { sp with inTransaction := false }.prepare sk none true with
  | (.error e, sp, sk) => (.error e, sp, sk)
  | (.ok (), sp, sk) => sp.solveNow sk false

/-- Takes out a constraint whose solve failed, and solves what is left. Whether that can be solved
does not matter. -/
def reject (sp : Space α) (sk : Sketch α) (id : ConstraintId) (cause : SolveFailure α) :
    Except (Failure α) Unit × Space α × Sketch α :=
  match { sp with conflicting := id :: sp.conflicting }.removeConstraint sk id with
  | (.error e, sp, sk) => (.error e, sp, sk)
  | (.ok _, sp, sk) =>
    match sp.build sk with
    | (.error e, sp, sk) => (.error e, sp, sk)
    | (.ok (), sp, sk) =>
      let (_, sp, sk) := sp.solve sk false
      (.error (.rejected cause), sp, sk)

/-- Adds a constraint and solves. In a transaction it is added only. -/
def addConstraint (sp : Space α) (sk : Sketch α) (c : Constraint) :
    Except (Failure α) Unit × Space α × Sketch α :=
  let c := { c with space := some sp.index }
  let sp := { sp with constraints := sp.constraints ++ [c] }
  if sp.inTransaction then (.ok (), sp, sk.register c.id c.entities)
  else
    match sp.prepare sk none true with
    | (.error e, sp, sk) => (.error e, sp, sk)
    | (.ok (), sp, sk) =>
      match sp.solve sk false with
      | (.ok _, sp, sk) => (.ok (), sp, sk.register c.id c.entities)
      | (.error cause, sp, sk) => sp.reject sk c.id cause

end Solve

end SketchSolver.Space
