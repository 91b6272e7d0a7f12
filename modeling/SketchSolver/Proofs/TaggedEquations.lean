import SketchSolver.Equation
import SketchSolver.Proofs.SortedIds

/-!
# Equations and their tags

A solve writes nothing to equations but tags. Two lists hold the same equations when they are
equal once tags are cleared (`untagged`); tagging one equation by its id keeps that
(`untagged_setTag`), and the equation that is found under an id is the one that is tagged
(`mem_setTag`).

Comparing lists with their tags cleared is an equation between lists of equations, so it is an
equivalence for free, and everything that does not depend on tags can be carried over: the
ids and their order (`ids_of_untagged`), the expressions (`exprs_of_untagged`), how many there
are (`size_of_untagged`), and for each equation of one list its counterpart in the other
(`exists_of_untagged`).

Tags are written by id, and the id is looked up as it is everywhere else. A list of equations
is always sorted, so the look-up is exact; but that a list keeps its equations when one is
tagged is true of any list, found or not. Where it is to be known what surrounds the equation
that was tagged, the list is split at it (`setTag_split`).
-/

namespace SketchSolver

variable {α : Type}

/-- The equation with its tag cleared. -/
def Equation.untagged (e : Equation α) : Equation α := { e with tag := 0 }

/-- Equations that differ by their tags have one expression. -/
theorem Equation.expr_of_untagged {e e' : Equation α} (same : e'.untagged = e.untagged) :
    e'.expr = e.expr := by
  have := congrArg Equation.expr same
  exact this

namespace EquationList

variable {l l' : EquationList α} {e e' : Equation α} {id : Int} {tag : Nat}

/-- Clearing tags clears that of each equation. -/
theorem toList_clearTags (l : EquationList α) :
    l.clearTags.toList = l.toList.map (·.untagged) := by
  show (l.items.map _).toList = _
  rw [Array.toList_map]
  rfl

/-- What is in a cleared list was in the list, with some tag. -/
theorem mem_clearTags : e ∈ l.clearTags.toList ↔ ∃ e' ∈ l.toList, e'.untagged = e := by
  rw [toList_clearTags, List.mem_map]

/-- Lists that are equal but for tags are equal once these are cleared. -/
theorem clearTags_of_untagged (same : l'.toList.map (·.untagged) = l.toList.map (·.untagged)) :
    l'.clearTags = l.clearTags := by
  obtain ⟨items⟩ := l
  obtain ⟨items'⟩ := l'
  have := Array.toList_inj.mp
    ((toList_clearTags _).trans (same.trans (toList_clearTags _).symm))
  exact congrArg IdList.mk this

/-- Lists that are equal once tags are cleared have the same expressions. -/
theorem exprs_of_untagged (same : l'.toList.map (·.untagged) = l.toList.map (·.untagged)) :
    l'.toList.map (·.expr) = l.toList.map (·.expr) := by
  have := congrArg (List.map (·.expr)) same
  rw [List.map_map, List.map_map] at this
  exact this

theorem size_of_untagged (same : l'.toList.map (·.untagged) = l.toList.map (·.untagged)) :
    l'.size = l.size := by
  have := congrArg List.length same
  rw [List.length_map, List.length_map] at this
  unfold IdList.toList at this
  rw [Array.length_toList, Array.length_toList] at this
  exact this

/-- An equation of one list is in the other one, but for its tag. -/
theorem exists_of_untagged (same : l'.toList.map (·.untagged) = l.toList.map (·.untagged))
    (mem : e ∈ l.toList) : ∃ e' ∈ l'.toList, e'.untagged = e.untagged := by
  have : e.untagged ∈ l'.toList.map (·.untagged) := same ▸ List.mem_map_of_mem mem
  exact List.mem_map.mp this

/-- Lists that differ by tags have equations with the same properties, as far as these are of the
expressions. -/
theorem exists_expr_iff (same : l'.toList.map (·.untagged) = l.toList.map (·.untagged))
    {P : Expr α → Prop} : (∃ e ∈ l'.toList, P e.expr) ↔ ∃ e ∈ l.toList, P e.expr := by
  constructor
  · rintro ⟨e, mem, holds⟩
    obtain ⟨e', mem', eq⟩ := exists_of_untagged same.symm mem
    exact ⟨e', mem', Equation.expr_of_untagged eq ▸ holds⟩
  · rintro ⟨e, mem, holds⟩
    obtain ⟨e', mem', eq⟩ := exists_of_untagged same mem
    exact ⟨e', mem', Equation.expr_of_untagged eq ▸ holds⟩

theorem ids_of_untagged (same : l'.toList.map (·.untagged) = l.toList.map (·.untagged)) :
    l'.toList.map (·.id) = l.toList.map (·.id) := by
  have := congrArg (List.map (·.id)) same
  rw [List.map_map, List.map_map] at this
  exact this

/-- Lists that differ by tags are in the same order. -/
theorem sorted_of_untagged (same : l'.toList.map (·.untagged) = l.toList.map (·.untagged))
    (sorted : IdList.Sorted Equation.id l) : IdList.Sorted Equation.id l' := by
  unfold IdList.Sorted at sorted ⊢
  rw [← List.pairwise_map (f := Equation.id) (R := (· < ·))] at sorted ⊢
  rw [ids_of_untagged same]
  exact sorted

/-- Tagging the item at a position changes tags only. -/
theorem untagged_modify (tag : Nat) : ∀ (es : List (Equation α)) (i : Nat),
    (es.modify i ({ · with tag := tag })).map (·.untagged) = es.map (·.untagged)
  | [], i => by rw [List.modify_nil]
  | e :: es, 0 => rfl
  | e :: es, i + 1 => by
    rw [List.modify_succ_cons, List.map_cons, List.map_cons, untagged_modify tag es i]

/-- Tagging an equation changes tags alone. -/
theorem untagged_setTag (l : EquationList α) (id : Int) (tag : Nat) :
    (l.setTag id tag).toList.map (·.untagged) = l.toList.map (·.untagged) := by
  unfold setTag
  split
  next i _ =>
    show (l.items.modify i _).toList.map _ = _
    rw [Array.toList_modify]
    exact untagged_modify tag l.toList i
  next => rfl

/-- What is found under an id is what is tagged. -/
theorem setTag_toList (found : l.byId? id = some e) (tag : Nat) :
    ∃ i, l.toList[i]? = some e ∧
      (l.setTag id tag).toList = l.toList.set i { e with tag } := by
  unfold byId? IdList.find? at found
  unfold setTag
  cases position : l.position Equation.id id with
  | vacant i =>
    rw [position] at found
    simp at found
  | occupied i =>
    rw [position] at found
    simp only at found
    refine ⟨i, by simpa [IdList.toList] using found, ?_⟩
    show (l.items.modify i _).toList = _
    rw [Array.toList_modify]
    apply List.ext_getElem?
    intro j
    rw [List.getElem?_modify, List.getElem?_set]
    split
    next eq =>
      subst eq
      obtain ⟨bound, eq⟩ := Array.getElem?_eq_some_iff.mp found
      simp [IdList.toList, bound, eq]
    next => exact id_map _

/-- The equation that is tagged keeps its place among the others. -/
theorem setTag_split (found : l.byId? id = some e) (tag : Nat) :
    ∃ before after, l.toList = before ++ e :: after ∧
      (l.setTag id tag).toList = before ++ { e with tag } :: after := by
  obtain ⟨i, at', tagged⟩ := setTag_toList found tag
  obtain ⟨bound, eq⟩ := List.getElem?_eq_some_iff.mp at'
  refine ⟨l.toList.take i, l.toList.drop (i + 1), ?_, ?_⟩
  · rw [← eq, List.getElem_cons_drop, List.take_append_drop]
  · rw [tagged, List.set_eq_take_append_cons_drop, if_pos bound]

/-- The list has the equation with its new tag, and else equations that it had. -/
theorem mem_setTag (found : l.byId? id = some e) (mem : e' ∈ (l.setTag id tag).toList) :
    e' = { e with tag } ∨ e' ∈ l.toList := by
  obtain ⟨i, _, eq⟩ := setTag_toList found tag
  rw [eq] at mem
  exact (List.mem_or_eq_of_mem_set mem).symm

/-- What was tagged is in the list, with its tag. -/
theorem tagged_mem_setTag (found : l.byId? id = some e) (tag : Nat) :
    { e with tag } ∈ (l.setTag id tag).toList := by
  obtain ⟨i, at', eq⟩ := setTag_toList found tag
  obtain ⟨bound, _⟩ := List.getElem?_eq_some_iff.mp at'
  rw [eq]
  exact List.mem_set bound _

/-- Tagging an equation leaves what is found under other ids. -/
theorem byId?_setTag_ne {other : Int} (sorted : IdList.Sorted Equation.id l)
    (found : l.byId? id = some e) (ne : e'.id ≠ id) (found' : l.byId? other = some e') :
    (l.setTag id tag).byId? other = some e' := by
  obtain ⟨mem, eq⟩ := IdList.find?_some found'
  obtain ⟨before, after, split, tagged⟩ := setTag_split found tag
  refine (IdList.find?_eq_some_iff (sorted_of_untagged (untagged_setTag l id tag) sorted)).mpr ⟨?_, eq⟩
  rw [split, List.perm_middle.mem_iff, List.mem_cons] at mem
  rw [tagged, List.perm_middle.mem_iff]
  refine List.mem_cons_of_mem _ (mem.resolve_left fun same => ne ?_)
  rw [same]
  exact (IdList.find?_some found).2

end EquationList

end SketchSolver
