import SketchSolver.Store

/-!
# Lists in the order of ids

An `IdList` keeps its items in ascending order of their ids, so a look-up is a binary search.
The items do not own the order: `key` says which id an item has now, and a parameter's id lives
in the store. `position` therefore searches whatever order the ids have at the time, and is
defined for every list.

Correspondence with the program:
- `IdList` is its `IdList`, and `key` is the method `id` of what it may hold, `IdEntity`.
- `position` is the library's binary search, step for step: on a list that is out of order,
  which ids written elsewhere can bring about, it finds what the search finds there.
- `find?`, `insert?` and `remove?` are `find_by_id`, `add` and `remove_by_id`; a failure to add has no
  content here, since the id that was taken is known to the caller.
- `addFresh?` is `add_and_assign_id`. The id is written to the parameter before the list is
  searched, so a parameter that cannot be added keeps it.
- `maxId` is `max_id`: the last item is asked, which has the largest id of a list in order. A
  list with negative ids only answers zero, as if it were empty.
- `has` first asks whether the parameter has an id at all, then whether the list has that id. It
  does not ask whether the item under it is that parameter.
-/

namespace SketchSolver

/-- Items kept in ascending order of their ids. -/
structure IdList (β : Type) where
  items : Array β
  deriving Repr

namespace IdList

variable {β : Type}

/-- The list without items. -/
def empty : IdList β := ⟨#[]⟩

/-- The items in list order. -/
def toList (l : IdList β) : List β := l.items.toList

/-- How many items the list has. -/
def size (l : IdList β) : Nat := l.items.size

/-- Where an id is, or where it would go. -/
inductive Slot where
  | occupied (index : Nat)
  | vacant (index : Nat)
  deriving Repr, DecidableEq

/-- The search keeps a window of positions, and halves it by whether the id in its middle is at most
the one sought. The position that remains is the only one that can hold the id. -/
def narrow (key : β → Int) (items : Array β) (id : Int) (base size : Nat)
    (bound : base + size ≤ items.size) (pos : 0 < size) : Fin items.size :=
  if more : 1 < size then
    if key items[base + size / 2] ≤ id then
      narrow key items id (base + size / 2) (size - size / 2) (by omega) (by omega)
    else
      narrow key items id base (size - size / 2) (by omega) (by omega)
  else ⟨base, by omega⟩
termination_by size

/-- Where an id is, or where it would go. -/
def position (key : β → Int) (l : IdList β) (id : Int) : Slot :=
  if pos : 0 < l.items.size then
    let i := narrow key l.items id 0 l.items.size (by omega) pos
    if key l.items[i] = id then .occupied i
    else if key l.items[i] < id then .vacant (i + 1)
    else .vacant i
  else .vacant 0

/-- The item with an id. -/
def find? (key : β → Int) (l : IdList β) (id : Int) : Option β :=
  match l.position key id with
  | .occupied i => l.items[i]?
  | .vacant _ => none

/-- The list with one more item, unless its id is taken. -/
def insert? (key : β → Int) (l : IdList β) (x : β) : Option (IdList β) :=
  match l.position key (key x) with
  | .occupied _ => none
  | .vacant i => some ⟨l.items.insertIdxIfInBounds i x⟩

/-- The item with an id, and the list without it. -/
def remove? (key : β → Int) (l : IdList β) (id : Int) : Option (β × IdList β) :=
  match l.position key id with
  | .occupied i => l.items[i]?.map fun x => (x, ⟨l.items.eraseIdxIfInBounds i⟩)
  | .vacant _ => none

/-- The id of the last item, or zero where that is larger or there is none. -/
def maxId (key : β → Int) (l : IdList β) : Int :=
  match l.items.back? with
  | some x => max (key x) 0
  | none => 0

/-- The list with every item changed in place. -/
def map (f : β → β) (l : IdList β) : IdList β := ⟨l.items.map f⟩

end IdList

/-- A list of parameters. Their ids are those of the store. -/
abbrev ParamList := IdList Handle

namespace ParamList

variable {α : Type} [Zero α]

/-- The parameter with an id. -/
def byId? (l : ParamList) (s : Store α) (id : Int) : Option Handle := l.find? s.id id

/-- The parameter that the list holds under another parameter's id. -/
def same? (l : ParamList) (s : Store α) (h : Handle) : Option Handle := l.byId? s (s.id h)

/-- Whether the list has the id of a parameter. One without an id is in no list. -/
def has (l : ParamList) (s : Store α) (h : Handle) : Bool :=
  s.id h != unassigned && (l.same? s h).isSome

/-- The list with a parameter that has its id already, unless that id is taken. -/
def add? (l : ParamList) (s : Store α) (h : Handle) : Option ParamList := l.insert? s.id h

/-- The store in which a parameter has the next free id of the list. -/
def withFreshId (l : ParamList) (s : Store α) (h : Handle) : Store α :=
  s.setId h (l.maxId s.id + 1)

/-- The parameters with a fresh id each, which is set before the list is searched for it. -/
def addFresh? (l : ParamList) (s : Store α) (h : Handle) : Option ParamList × Store α :=
  let s := l.withFreshId s h
  (l.add? s h, s)

/-- The store with the tags of all listed parameters cleared. -/
def clearTags (l : ParamList) (s : Store α) : Store α :=
  l.toList.foldl (fun s h => s.setTag h 0) s

end ParamList

end SketchSolver
