import SketchSolver.Linear.Rank
import SketchSolver.Newton.Iteration
import SketchSolver.Problem.Basic

/-!
# Solving a problem

A solve has these phases, each of which leaves less to the next:

1. `resetScratch`: no parameter is settled, no equation is taken.
2. `merge`: equations that equate two parameters are used up.
3. `solveAlones`: an equation with a single free unknown is solved by itself, and its unknown
   is settled.
4. `solveTogether`: what remains must have independent equations, and is solved by Newton's
   method.
5. `writeBack`: every eliminated parameter gets the value of its representative.

A solve that fails leaves the values where it gave up.

Correspondence with the program:
- `solve` is the method of `System`; `solveAlones` is `pre_process`, with `loneUnknown?` for the
  conditions that an equation is passed over for, and `writeBack` is `post_process`.
- `Report` is its `SolveReport`, without the status, which is success in every report.
- What the program returns as one type of error is told apart by phase in `SolveFailure`, so
  it can be seen from a failure how far the solve came. Only a failure of Newton's method in
  the third phase is wrapped with the number of the group; too many unknowns are not.
- The tag of an equation is set in the list and that of a parameter in the store, so both are
  results of the third phase, also when it fails.
- The degrees of freedom are a difference of natural numbers. The program forms it before it
  calls Newton's method, where the equations may outnumber the unknowns and still count as
  independent; the subtraction is out of range then. Here it is formed last, and such a system
  is reported as overdetermined.
- The rank is counted with Gram-Schmidt; the other method is no part of the default build.
-/

namespace SketchSolver

/-- What a solve did. -/
structure Report where
  /-- The unknowns that the main system leaves free. -/
  freedom : Nat
  /-- The unknowns of the main system. -/
  unknowns : Nat
  /-- The equations of the main system. -/
  equations : Nat
  /-- The Newton steps on the main system. -/
  iterations : Nat
  /-- The equations that were solved alone. -/
  alone : Nat
  /-- The parameters that equal another one. -/
  eliminated : Nat
  deriving DecidableEq, Repr

/-- Why a solve failed. -/
inductive SolveFailure (α : Type) where
  | redundant (pair : Redundant)
  | tooMany (e : TooMany)
  /-- The equations of the main system depend on each other. -/
  | dependent (e : Linear.Singular)
  /-- Newton's method gave up on the main system. -/
  | newton (e : NewtonFailure α)
  /-- Newton's method gave up on the equation that was the `group`-th to be solved alone. -/
  | alone (group : Nat) (e : NewtonFailure α)
  deriving Repr

namespace Problem

variable {α : Type}

section Phases

variable [Zero α]

/-- The store in which no listed parameter is settled, eliminated or taken. -/
def resetParams (params : ParamList) (s : Store α) : Store α :=
  params.toList.foldl (fun s p => s.modify p Param.reset) (params.clearTags s)

/-- The problem in which no equation is taken, and the store in which its parameters are free. -/
def resetScratch (p : Problem α) (s : Store α) : Problem α × Store α :=
  ({ p with equations := p.equations.clearTags }, resetParams p.params s)

/-- The unknown of an equation that can be solved alone: it is not taken, and mentions one parameter
of the problem, which is not taken either. -/
def loneUnknown? (p : Problem α) (s : Store α) (e : Equation α) : Option Handle :=
  if e.tag ≠ 0 then none
  else
    match e.expr.referenced s p.params with
    | .single id => (p.params.byId? s id).filter fun h => s.tag h == 0
    | _ => none

/-- The value of every eliminated parameter becomes that of its representative, which settles it. -/
def writeBackOne (params : ParamList) (s : Store α) (p : Handle) : Store α :=
  if (s.get p).isSubstituted then
    match params.byId? s (s.get p).representative with
    | some r => (s.setValue p (s.value r)).setKnown p true
    | none => s
  else s

/-- The store in which all eliminated parameters have their values. -/
def writeBack (params : ParamList) (s : Store α) : Store α :=
  params.toList.foldl (writeBackOne params) s

end Phases

section Solve

variable [Zero α] [One α] [Add α] [Sub α] [Mul α] [Div α] [Neg α] [LT α] [LE α] [BEq α]
variable [DecidableLT α] [DecidableLE α] [Elementary α]

/-- Solves the equations and the unknown that carry the number of a group, and settles the unknown. -/
def solveAlone (p : Problem α) (tolerance : α) (group : Nat) (h : Handle) (s : Store α) :
    Except (SolveFailure α) Unit × Store α :=
  match Jacobian.write group s p.params p.equations p.settings.maxUnknowns with
  | .error e => (.error (.tooMany e), s)
  | .ok j =>
    match Newton.run p.settings p.dragged tolerance j s with
    | (.error e, s) => (.error (.alone group e), s)
    | (.ok _, s) => (.ok (), s.setKnown h true)

/-- Solves the equations with the given ids that have a single free unknown, one after the other in
groups that are numbered from `group` on. The result is the first number not used. -/
def solveAlonesFrom (tolerance : α) (group : Nat) :
    List Int → Problem α → Store α → Except (SolveFailure α) Nat × Problem α × Store α
  | [], p, s => (.ok group, p, s)
  | id :: ids, p, s =>
    match (p.equations.byId? id).bind (p.loneUnknown? s) with
    | none => solveAlonesFrom tolerance group ids p s
    | some h =>
      let p := { p with equations := p.equations.setTag id group }
      match p.solveAlone tolerance group h (s.setTag h group) with
      | (.error e, s) => (.error e, p, s)
      | (.ok (), s) => solveAlonesFrom tolerance (group + 1) ids p s

/-- Solves every equation that has a single free unknown. The result is their number. -/
def solveAlones (p : Problem α) (tolerance : α) (s : Store α) :
    Except (SolveFailure α) Nat × Problem α × Store α :=
  match solveAlonesFrom tolerance 1 (p.equations.toList.map (·.id)) p s with
  | (.error e, p, s) => (.error e, p, s)
  | (.ok group, p, s) => (.ok (group - 1), p, s)

/-- Solves the equations that are left, provided that they are independent. The result is their
Jacobian and the number of steps. -/
def solveTogether (p : Problem α) (tolerance : α) (s : Store α) :
    Except (SolveFailure α) (Jacobian α × Nat) × Store α :=
  match Jacobian.write 0 s p.params p.equations p.settings.maxUnknowns with
  | .error e => (.error (.tooMany e), s)
  | .ok j =>
    let rank := Linear.rank p.settings.rankThreshold (j.matrix s.value)
    if rank ≠ j.rows.length then (.error (.dependent ⟨rank, j.rows.length⟩), s)
    else
      match Newton.run p.settings p.dragged tolerance j s with
      | (.error e, s) => (.error (.newton e), s)
      | (.ok steps, s) => (.ok (j, steps), s)

/-- Solves what remains after the equal parameters were merged. -/
def solveMerged (p : Problem α) (tolerance : α) (eliminated : Nat) (s : Store α) :
    Except (SolveFailure α) Report × Problem α × Store α :=
  match p.solveAlones tolerance s with
  | (.error e, p, s) => (.error e, p, s)
  | (.ok alone, p, s) =>
    match p.solveTogether tolerance s with
    | (.error e, s) => (.error e, p, s)
    | (.ok (j, iterations), s) =>
      let unknowns := j.columns.length
      let equations := j.rows.length
      (.ok { freedom := unknowns - equations, unknowns, equations, iterations, alone, eliminated },
        p, writeBack p.params s)

/-- Changes the parameters until every equation holds within the tolerance for rough or for precise
solving. -/
def solve (p : Problem α) (rough : Bool) (s : Store α) :
    Except (SolveFailure α) Report × Problem α × Store α :=
  let tolerance := p.settings.tolerance rough
  let (p, s) := p.resetScratch s
  match EqualGroup.merge s p.params p.equations p.dragged with
  | (.error e, equations, s) => (.error (.redundant e), { p with equations }, s)
  | (.ok groups, equations, s) =>
    { p with equations }.solveMerged tolerance (EqualGroup.eliminated groups) s

end Solve

end Problem

end SketchSolver
