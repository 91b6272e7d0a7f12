import SketchSolver.Proofs.SortedIds
import SketchSolver.Proofs.StoreFrame

/-!
# Parameters of a list, by id

A list of parameters is searched by the ids of the moment. While it is sorted by them, `byId?`
and `same?` are exact: a listed parameter is found, and what is found under an id is the one
listed parameter that has it.

Without any condition it is still true that what is found is listed and has the id
(`byId?_mem`, `byId?_id`). That something is found needs the order. A parameter without an id
counts as not listed even if the list has it, and in a list whose ids are positive there is
none like it (`has_unassigned`).

All of these are what the lemmas about lists in general say, for keys that are read from a
store. Stores that agree on the listed parameters give the same answers (`byId?_congr`), and
this is the only way in which the store enters.
-/

namespace SketchSolver.ParamList

variable {α : Type} [Zero α] {s t : Store α} {l l' : ParamList} {h k : Handle} {id : Int}

theorem byId?_mem (found : l.byId? s id = some h) : h ∈ l.toList := (IdList.find?_some found).1

theorem byId?_id (found : l.byId? s id = some h) : s.id h = id := (IdList.find?_some found).2

/-- In a list that is sorted what has the id is found. -/
theorem byId?_eq_some_iff (sorted : IdList.Sorted s.id l) :
    l.byId? s id = some h ↔ h ∈ l.toList ∧ s.id h = id := IdList.find?_eq_some_iff sorted

/-- A listed parameter is found under its own id. -/
theorem same?_eq_self (sorted : IdList.Sorted s.id l) (mem : h ∈ l.toList) :
    l.same? s h = some h := IdList.find?_key sorted mem

/-- What is found for a parameter is listed. -/
theorem same?_mem (found : l.same? s h = some k) : k ∈ l.toList := byId?_mem found

/-- A listed parameter with an id counts as listed. -/
theorem has_of_mem (sorted : IdList.Sorted s.id l) (mem : h ∈ l.toList)
    (assigned : s.id h ≠ unassigned) : l.has s h = true := by
  unfold has
  rw [same?_eq_self sorted mem]
  simpa using assigned

/-- A parameter without an id is in no list. -/
theorem has_unassigned (free : s.id h = unassigned) : l.has s h = false := by
  unfold has
  simp [free]

/-- What a list has is a listed parameter with the same id. -/
theorem exists_of_has (has : l.has s h = true) : ∃ k ∈ l.toList, s.id k = s.id h := by
  unfold ParamList.has at has
  rw [Bool.and_eq_true, Option.isSome_iff_exists] at has
  obtain ⟨k, found⟩ := has.2
  exact ⟨k, same?_mem found, byId?_id found⟩

/-! ## Clearing tags -/

/-- Clearing tags writes to listed parameters. -/
theorem clearTags_within (l : ParamList) (s : Store α) :
    Store.Within l.toList s (l.clearTags s) :=
  .foldl (fun _ mem s => .setTag mem s 0) s

/-! ## Two stores -/

/-- Stores that agree on a list give the same look-ups in it. -/
theorem byId?_congr (agree : Store.Agree l.toList s t) (id : Int) :
    l.byId? t id = l.byId? s id := IdList.find?_congr fun _ mem => agree.id mem

theorem same?_congr (agree : Store.Agree l.toList s t) (mem : h ∈ l.toList) :
    l.same? t h = l.same? s h := by
  unfold same?
  rw [agree.id mem, byId?_congr agree]

theorem has_congr (agree : Store.Agree l.toList s t) (mem : h ∈ l.toList) :
    l.has t h = l.has s h := by
  unfold has
  rw [agree.id mem, same?_congr agree mem]

end SketchSolver.ParamList
