import SketchSolver.Equality.Forest
import SketchSolver.Equation

/-!
# Groups of equal parameters

An equation that is exactly the difference of two parameters says that they are equal. Such
equations need no numbers: the parameters that they bind together form a group, one of them
represents it, and the others are read through it until the solve is over.

`merge` finds the groups. It fails on the second equation that binds the same two parameters,
and then no parameter has changed.

Correspondence with the program:
- `merge` is `substitute`, in its parts: `collect` finds the pairs and tags the equations, `forest`
  joins them, `ofClass` chooses who represents a class, `apply` marks the others.
- `EqualGroup` is its `SubstitutionGroup`, and `eliminated` the sum that `solve` forms from them.
- Equations are tagged while the pairs are being collected, so those before a repeated pair
  stay tagged when `merge` fails. The next solve clears all tags first.
- A dragged root represents its class even when a member with a lower id is dragged too; only
  when the root is not dragged, the lowest dragged member is asked for.
- A pair is compared by ids, the smaller one first, so the order in an equation does not matter.
-/

namespace SketchSolver

/-- Parameters that are equal to each other, by id. -/
structure EqualGroup where
  /-- The member that stays in the system. -/
  representative : Int
  /-- All members, in ascending order. -/
  members : List Int
  deriving DecidableEq, Repr

/-- Two equations bind the same two parameters. -/
structure Redundant where
  first : Int
  second : Int
  deriving DecidableEq, Repr

variable {α : Type} [Zero α]

/-- The ids that an equation binds, the smaller one first. -/
def Equation.bound? (s : Store α) (e : Equation α) : Option (Int × Int) :=
  e.expr.paramDifference?.map fun (p, q) =>
    (min (s.id p) (s.id q), max (s.id p) (s.id q))

namespace EqualGroup

/-- The pairs that equations bind, after those found before, in order. The equations that bind a pair
are tagged as used up, as far as no pair comes twice. -/
def collect (s : Store α) (pairs : List (Int × Int)) :
    List (Equation α) → Except Redundant (List (Int × Int)) × List (Equation α)
  | [] => (.ok pairs, [])
  | e :: es =>
    match e.bound? s with
    | none =>
      let (found, es) := collect s pairs es
      (found, e :: es)
    | some pair =>
      if pair ∈ pairs then (.error ⟨pair.1, pair.2⟩, e :: es)
      else
        let (found, es) := collect s (pairs ++ [pair]) es
        (found, { e with tag := usedUpTag } :: es)

/-- The forest in which the ids of every pair are joined, pair by pair. -/
def forest (pairs : List (Int × Int)) : Forest :=
  pairs.foldl (fun f (a, b) => ((f.insert a).insert b).union a b) {}

/-- The group of a class. A dragged root represents it, else the first dragged member, else the
root. -/
def ofClass (dragged : List Int) (root : Int) (members : List Int) : EqualGroup :=
  let representative :=
    if root ∈ dragged then root else (members.find? (· ∈ dragged)).getD root
  ⟨representative, members⟩

/-- The groups that pairs of ids form, in the order of their roots. -/
def ofPairs (dragged : List Int) (pairs : List (Int × Int)) : List EqualGroup :=
  (forest pairs).classes.map fun (root, members) => ofClass dragged root members

/-- The store in which a member is eliminated in favour of the representative. -/
def eliminate (params : ParamList) (representative : Int) (s : Store α) (id : Int) : Store α :=
  if id = representative then s
  else
    match params.byId? s id with
    | some p => (s.setTag p substitutedTag).setRepresentative p representative
    | none => s

/-- The store in which the representative alone is left of a group. -/
def apply (params : ParamList) (s : Store α) (g : EqualGroup) : Store α :=
  g.members.foldl (eliminate params g.representative) s

/-- How many parameters are eliminated by groups. -/
def eliminated (groups : List EqualGroup) : Nat :=
  groups.foldl (fun n g => n + (g.members.length - 1)) 0

/-- The groups of the parameters that equations bind, the equations with those used up tagged, and
the store in which the groups are represented. -/
def merge (s : Store α) (params : ParamList) (equations : EquationList α) (dragged : List Int) :
    Except Redundant (List EqualGroup) × EquationList α × Store α :=
  match collect s [] equations.toList with
  | (.error e, es) => (.error e, ⟨es.toArray⟩, s)
  | (.ok pairs, es) =>
    let groups := ofPairs dragged pairs
    (.ok groups, ⟨es.toArray⟩, groups.foldl (apply params) s)

end EqualGroup

end SketchSolver
