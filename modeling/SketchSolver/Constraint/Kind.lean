/-!
# Kinds of constraints

Every kind has a code, under which it is stored, a name, and the number of entities that it
relates. It reads the parameters of these entities as one list, whose length is fixed as well.

Correspondence with the program:
- `Kind` is its `ConstraintKind`, `all` is `ALL`, and `ofCode?` is `from_code`, whose failure is
  raised where the code was read.
- Its table `SCHEMAS` has one entry for each kind, with the name, `arity` and `param_count`, and
  is indexed by the position of the kind. Here each column is a function by cases: `name`,
  `entityCount`, `paramCount`. The generators, the last column, are `Kind.residuals?`.
-/

namespace SketchSolver

/-- A geometric relation. -/
inductive Kind where
  | coincident
  | pointOnLine
  | equalLength
  | symmetric
  | horizontal
  | vertical
  | pointOnCircle
  | parallel
  | perpendicular
  | tangent
  | collinear
  | equalRadius
  deriving DecidableEq, Repr

namespace Kind

/-- All kinds in the order of their codes. -/
def all : List Kind :=
  [coincident, pointOnLine, equalLength, symmetric, horizontal, vertical, pointOnCircle, parallel,
    perpendicular, tangent, collinear, equalRadius]

/-- The code under which a kind is stored. -/
def code : Kind → Nat
  | coincident => 20
  | pointOnLine => 42
  | equalLength => 50
  | symmetric => 63
  | horizontal => 80
  | vertical => 81
  | pointOnCircle => 100
  | parallel => 121
  | perpendicular => 122
  | tangent => 123
  | collinear => 124
  | equalRadius => 130

/-- The kind with a code. -/
def ofCode? (code : Nat) : Option Kind := all.find? fun k => k.code == code

/-- The name that is shown. -/
def name : Kind → String
  | coincident => "Coincident"
  | pointOnLine => "Point on line"
  | equalLength => "Equal Length"
  | symmetric => "Symmetric"
  | horizontal => "Horizontal"
  | vertical => "Vertical"
  | pointOnCircle => "Point on circle"
  | parallel => "Parallel"
  | perpendicular => "Perpendicular"
  | tangent => "Tangent"
  | collinear => "Collinear"
  | equalRadius => "Equal Radius"

/-- How many entities it relates. -/
def entityCount : Kind → Nat
  | horizontal | vertical => 1
  | symmetric => 3
  | _ => 2

/-- How many parameters these entities have together. -/
def paramCount : Kind → Nat
  | coincident | horizontal | vertical => 4
  | pointOnCircle => 5
  | pointOnLine | equalRadius => 6
  | tangent => 7
  | equalLength | symmetric | parallel | perpendicular | collinear => 8

end Kind

end SketchSolver
