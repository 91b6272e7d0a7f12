/-!
# Parameters and their store

A parameter is one scalar unknown of a sketch. Entities, constraints, equations and the solver
all refer to the same parameters, so a parameter is a `Handle` and its fields live in a
`Store`.

A store has a parameter for every handle: those that were never written are blank. Writing one
handle therefore changes that handle and no other, whatever the handles are (`get_set`). All
frame lemmas of the library come down to that law.

Correspondence with the program:
- `Param` is its `Param`, whose fields can be written through any of the shared pointers to it
  (`ParamRef`). Two pointers are the same parameter when they point at the same place, and two
  handles when they are equal. The store stands for the memory, so what writes a parameter
  takes a store and yields one.
- `add` is `shared`: it makes a parameter that nothing refers to yet, with no id and no tag.
- `representative` is the field `substituted`, `reset` is `solver_init`, `setId` is `assign_id`; the
  others have their names there. `unassigned` and `substitutedTag` are `UNASSIGNED_ID` and
  `VAR_SUBSTITUTED`. Ids have 64 bits there and tags 32.
- A parameter to which nothing refers any more is freed there and stays in the store here.
-/

namespace SketchSolver

/-- The identity of a parameter. -/
structure Handle where
  index : Nat
  deriving DecidableEq, Repr

/-- The id of a parameter, equation or constraint that is in no list. -/
def unassigned : Int := -1

/-- The tag of a parameter that was eliminated because it equals another one. -/
def substitutedTag : Nat := 10001

/-- The fields of a parameter. `tag`, `known` and `representative` are scratch of the solver. -/
structure Param (α : Type) where
  /-- The id under which a list holds it. -/
  id : Int := unassigned
  value : α
  symbol : String
  /-- Zero while the parameter is a free unknown of the main system. -/
  tag : Nat := 0
  /-- Whether the value is settled for this solve. -/
  known : Bool := false
  /-- The id of the parameter that stands for an eliminated one. -/
  representative : Int := 0
  deriving Repr

namespace Param

variable {α : Type}

/-- Whether another parameter stands for this one. -/
def isSubstituted (p : Param α) : Bool := p.tag == substitutedTag

/-- The parameter at the start of a solve. The tag belongs to the list and stays. -/
def reset (p : Param α) : Param α := { p with known := false, representative := 0 }

/-- The parameter of a handle that was never written. -/
def blank [Zero α] : Param α := { value := 0, symbol := "" }

end Param

/-- The parameters of a sketch by handle. -/
structure Store (α : Type) where
  cells : Array (Param α)

namespace Store

variable {α : Type}

/-- The store in which every parameter is blank. -/
def empty : Store α := ⟨#[]⟩

/-- How many handles have been given out. -/
def size (s : Store α) : Nat := s.cells.size

section Access

variable [Zero α]

/-- The parameter of a handle. -/
def get (s : Store α) (h : Handle) : Param α := s.cells.getD h.index Param.blank

/-- The store with another parameter under one handle. -/
def set (s : Store α) (h : Handle) (p : Param α) : Store α :=
  if bound : h.index < s.cells.size then ⟨s.cells.set h.index p⟩
  else ⟨(s.cells ++ Array.replicate (h.index - s.cells.size) Param.blank).push p⟩

/-- The store with one parameter changed. -/
def modify (s : Store α) (h : Handle) (f : Param α → Param α) : Store α := s.set h (f (s.get h))

/-- The current value of a parameter. -/
def value (s : Store α) (h : Handle) : α := (s.get h).value

/-- The current id of a parameter. -/
def id (s : Store α) (h : Handle) : Int := (s.get h).id

/-- The tag of a parameter. -/
def tag (s : Store α) (h : Handle) : Nat := (s.get h).tag

/-- The store with another value of one parameter. -/
def setValue (s : Store α) (h : Handle) (v : α) : Store α := s.modify h ({ · with value := v })

/-- The store with another id of one parameter. -/
def setId (s : Store α) (h : Handle) (i : Int) : Store α := s.modify h ({ · with id := i })

/-- The store with another tag of one parameter. -/
def setTag (s : Store α) (h : Handle) (t : Nat) : Store α := s.modify h ({ · with tag := t })

/-- The store with one parameter settled or not. -/
def setKnown (s : Store α) (h : Handle) (b : Bool) : Store α := s.modify h ({ · with known := b })

/-- The store with another representative of one parameter. -/
def setRepresentative (s : Store α) (h : Handle) (i : Int) : Store α :=
  s.modify h ({ · with representative := i })

/-- The store with one parameter out of every list. -/
def detach (s : Store α) (h : Handle) : Store α := s.setId h unassigned

end Access

/-- A new parameter under the next handle. -/
def add (s : Store α) (symbol : String) (value : α) : Handle × Store α :=
  (⟨s.cells.size⟩, ⟨s.cells.push { value, symbol }⟩)

section Laws

variable [Zero α]

theorem get_set (s : Store α) (h k : Handle) (p : Param α) :
    (s.set h p).get k = if h = k then p else s.get k := by
  obtain ⟨h⟩ := h
  obtain ⟨k⟩ := k
  simp only [get, set, Handle.mk.injEq, Array.getD_eq_getD_getElem?]
  split
  · rename_i bound
    simp only [Array.getElem?_set]
    split
    · simp
    · rfl
  · rename_i bound
    simp only [Array.getElem?_push, Array.size_append, Array.size_replicate,
      Array.getElem?_append, Array.getElem?_replicate]
    grind

theorem get_modify (s : Store α) (h k : Handle) (f : Param α → Param α) :
    (s.modify h f).get k = if h = k then f (s.get h) else s.get k := by
  simp [modify, get_set]

end Laws

end Store

end SketchSolver
