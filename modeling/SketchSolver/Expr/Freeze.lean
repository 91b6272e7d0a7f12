import SketchSolver.Expr.Basic
import SketchSolver.IdList

/-!
# Expressions against a list of parameters

During a solve some parameters of the system are settled, and some are represented by others.
`frozen` is the copy of an expression that the solver works on: settled parameters have become
constants, and each eliminated one has been replaced by its representative. `referenced` tells
whether an expression mentions none, one or several of the listed parameters.

Correspondence with the program:
- `frozen` is `deep_copy`, with `stand?` and `frozenLeaf` for what it does at a leaf. The leaf is
  looked up by its id and nothing else, so a parameter outside the list that has a listed id is
  replaced by the listed one.
- One redirection is made, not a chain of them: a representative is not eliminated itself.
- `Referenced` is its `ReferencedParams`, `referenced` is `referenced_params`, and `union` the match
  of two operands. A parameter counts by its id, as often as it may occur, and one outside the
  list not at all. Settled parameters count like others.
- `rebound` is `substitute`, which the solver does not use.
-/

namespace SketchSolver

/-- How many distinct listed ids an expression mentions. -/
inductive Referenced where
  | none
  | single (id : Int)
  | multiple
  deriving DecidableEq, Repr

/-- What two operands mention together. -/
def Referenced.union : Referenced → Referenced → Referenced
  | .none, r => r
  | r, .none => r
  | .single a, .single b => if a = b then .single a else .multiple
  | _, _ => .multiple

namespace Expr

variable {α : Type} [Zero α]

/-- Which of the listed parameters an expression mentions. -/
def referenced (s : Store α) (l : ParamList) : Expr α → Referenced
  | .param p => if l.has s p then .single (s.id p) else .none
  | .const _ => .none
  | .unary _ a => a.referenced s l
  | .binary _ a b => (a.referenced s l).union (b.referenced s l)

/-- The parameter that is read in place of another one: its representative if it has one in the
list, else the listed parameter with its id. A parameter outside the list has none. -/
def stand? (s : Store α) (l : ParamList) (p : Handle) : Option Handle :=
  (l.same? s p).map fun stored =>
    let q := s.get stored
    if q.isSubstituted then (l.byId? s q.representative).getD stored else stored

/-- The leaf that takes the place of a parameter. -/
def frozenLeaf (s : Store α) (l : ParamList) (p : Handle) : Expr α :=
  match stand? s l p with
  | none => .param p
  | some target =>
    let q := s.get target
    if q.known then .const q.value else .param target

/-- The copy in which settled parameters are constants and eliminated ones are represented. -/
def frozen (s : Store α) (l : ParamList) : Expr α → Expr α
  | .param p => frozenLeaf s l p
  | .const v => .const v
  | .unary op a => .unary op (a.frozen s l)
  | .binary op a b => .binary op (a.frozen s l) (b.frozen s l)

/-- The copy in which every parameter with an id has been replaced by another parameter. -/
def rebound (s : Store α) (id : Int) (p : Handle) : Expr α → Expr α
  | .param q => .param (if s.id q = id then p else q)
  | .const v => .const v
  | .unary op a => .unary op (a.rebound s id p)
  | .binary op a b => .binary op (a.rebound s id p) (b.rebound s id p)

end Expr

end SketchSolver
