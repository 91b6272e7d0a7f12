import SketchSolver.Ascending

/-!
# Forests of linked ids

Ids are joined into classes by linking the root of one class below the root of another. Every
id stands in one tree, and two ids are in the same class when they have the same root. An id
that was never linked is the root of a class of its own.

`find` follows the links to the root and on its way links every id it visits two steps further
up. The forest has at most one link for an id, so the number of links bounds the way.

Correspondence with the program:
- `Forest` is its `UnionFind`. Its two maps are lists of pairs here, with the entries that say
  nothing left out: an id above itself, and the size one.
- `find` loops there until it is at a root. `climb` does so with a bound on the steps, and since
  the links have no cycle the bound is never what ends it.
- `union` hangs the smaller class below the larger one, and the first below the second when they
  have the same size. Which root survives matters, since it may represent the class.
- `classes` is the last loop but one of `substitute`. It calls `find` for every id there and keeps
  the shorter ways; here the forest is left as it is, and the roots are the same.
-/

namespace SketchSolver

/-- Ids in trees. -/
structure Forest where
  /-- The ids that were entered, in ascending order. -/
  members : List Int := []
  /-- From an id to the one above it, for ids that are no roots. -/
  links : List (Int × Int) := []
  /-- How many ids the class of a root has, for classes with more than one. -/
  sizes : List (Int × Nat) := []
  deriving Repr

namespace Forest

/-- The id above an id, or the id itself at a root. -/
def parent (f : Forest) (p : Int) : Int := (f.links.lookup p).getD p

/-- The size noted for a root. -/
def size (f : Forest) (p : Int) : Nat := (f.sizes.lookup p).getD 1

/-- The forest with an id entered. -/
def insert (f : Forest) (p : Int) : Forest := { f with members := Ascending.insert p f.members }

/-- The forest in which `q` is the id above `p`. -/
def link (f : Forest) (p q : Int) : Forest :=
  { f with links := (p, q) :: f.links.filter fun l => l.1 != p }

/-- The root above an id, and the forest with shorter ways to it. -/
def climb : Nat → Forest → Int → Int × Forest
  | 0, f, p => (p, f)
  | fuel + 1, f, p =>
    if f.parent p = p then (p, f)
    else
      let grand := f.parent (f.parent p)
      climb fuel (f.link p grand) grand

/-- The root of an id, and the forest with shorter ways to it. -/
def find (f : Forest) (p : Int) : Int × Forest := climb (f.links.length + 1) f p

/-- The root of an id. -/
def root (f : Forest) (p : Int) : Int := (f.find p).1

/-- The forest in which the class of one root has become part of the class of another. -/
def join (f : Forest) (child root : Int) : Forest :=
  { f.link child root with sizes := (root, f.size root + f.size child) :: f.sizes }

/-- The forest in which two ids have the same root: that of the larger class, and of `q` when both
classes are of the same size. -/
def union (f : Forest) (p q : Int) : Forest :=
  let (rootP, f) := f.find p
  let (rootQ, f) := f.find q
  if rootP = rootQ then f
  else if f.size rootQ < f.size rootP then f.join rootQ rootP
  else f.join rootP rootQ

/-- The classes of the entered ids, each under its root. Roots and members ascend. -/
def classes (f : Forest) : List (Int × List Int) :=
  let rooted := f.members.map fun p => (p, f.root p)
  let roots := (rooted.filter fun (p, r) => p == r).map (·.1)
  roots.map fun r => (r, (rooted.filter fun (_, r') => r' == r).map (·.1))

end Forest

end SketchSolver
