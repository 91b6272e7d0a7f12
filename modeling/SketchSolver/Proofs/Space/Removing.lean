import SketchSolver.Proofs.StableSort
import SketchSolver.Space.Basic

/-!
# Removing a constraint

Removing takes one constraint out of the list and out of the set of those that take no part,
off the entities, and frees its decoration (`removeConstraint_eq`). The parameters that the
sketch has stay as they are (`params_unregister`), so nothing has to be numbered anew for the
sake of the sketch.

The list may hold two constraints with one id only if somebody added a constraint twice. A
removal takes the first of them out, and the set of ids that take no part loses the id for
both. Where ids are apart, as they are in every session, taking out the first one is leaving
out all with that id (`eraseP_eq_filter`); the modules about sessions use the second form,
because it does not depend on the order of the list.

Registering is by id as well: what was never registered may be unregistered and nothing
happens (`unregister_eq_self`). A constraint that a solve has rejected was not registered
yet, so its removal leaves the entities as they are, and this is where that is needed.

The constraint that is given back tells no space and carries no decoration. Its parameters
and entities are those that it was created with.
-/

namespace SketchSolver

variable {α : Type}

/-- Taking the first match out is leaving all matches out where no two items match. -/
theorem eraseP_eq_filter {β : Type} {test : β → Bool} : ∀ {xs : List β},
    xs.Pairwise (fun x y => ¬ (test x = true ∧ test y = true)) →
    xs.eraseP test = xs.filter fun x => !test x
  | [], _ => rfl
  | x :: xs, alone => by
    obtain ⟨others, alone⟩ := List.pairwise_cons.mp alone
    by_cases hit : test x = true
    · rw [List.eraseP_cons_of_pos hit, List.filter_cons_of_neg (by simp [hit])]
      refine (List.filter_eq_self.mpr fun y mem => ?_).symm
      have miss : test y ≠ true := fun hit' => others y mem ⟨hit, hit'⟩
      simpa using miss
    · rw [List.eraseP_cons_of_neg hit, List.filter_cons_of_pos (by simpa using hit),
        eraseP_eq_filter alone]

namespace Sketch

variable {sk : Sketch α} {c : ConstraintId} {ids : List EntityId}

/-- Which constraints are registered has no bearing on the parameters. -/
theorem params_changeConstraints (change : List ConstraintId → List ConstraintId) :
    (sk.changeConstraints ids change).params = sk.params := by
  unfold params changeConstraints
  rw [List.flatMap_map, List.flatMap_def, List.flatMap_def]
  congr 1
  refine List.map_congr_left fun e _ => ?_
  split
  next => rfl
  next => rfl

/-- Unregistering a constraint keeps all parameters. -/
theorem params_unregister : (sk.unregister c ids).params = sk.params :=
  params_changeConstraints _

/-- Taking a constraint off entities on which it is not registered does nothing. -/
theorem unregister_eq_self (absent : ∀ e ∈ sk.entities, c ∉ e.constraints) :
    sk.unregister c ids = sk := by
  have same : (sk.entities.map fun e =>
      if e.id ∈ ids.flatMap sk.subtree then
        { e with constraints := e.constraints.filter (· ≠ c) } else e) = sk.entities := by
    refine (List.map_congr_left fun e mem => ?_).trans (List.map_id _)
    split
    next =>
      have all : e.constraints.filter (· ≠ c) = e.constraints := by
        refine List.filter_eq_self.mpr fun d registered => ?_
        have ne : d ≠ c := fun eq => absent e mem (eq ▸ registered)
        simpa using ne
      rw [all]
      rfl
    next => rfl
  unfold unregister changeConstraints
  simp only
  rw [same]

end Sketch

/-- A constraint that has given its decoration back is the same but for that. -/
theorem Constraint.undecorate_fst (c : Constraint) (sk : Sketch α) :
    (c.undecorate sk).1 = { c with decoration := none } := by
  unfold undecorate
  cases eq : c.decoration with
  | none =>
    show c = _
    rw [← eq]
  | some d => rfl

/-- Only the decorations can tell that a constraint gave up its own. -/
theorem Constraint.undecorate_eq (c : Constraint) (sk : Sketch α) :
    (c.undecorate sk).2 =
      { sk with decorations := sk.decorations.filter fun d => c.decoration ≠ some d } := by
  unfold undecorate
  cases c.decoration with
  | none =>
    have all : (sk.decorations.filter fun d => (none : Option DecorationId) ≠ some d) =
        sk.decorations := List.filter_eq_self.mpr fun d _ => by simp
    simp only [all]
  | some d =>
    unfold Sketch.free
    simp only
    congr 1
    exact List.filter_congr fun x _ => by simp [eq_comm]

namespace Space

variable {sp : Space α} {sk : Sketch α} {c : Constraint} {id : ConstraintId}

/-- What is found under an id is hosted and has that id. -/
theorem constraint?_some (found : sp.constraint? id = some c) :
    c ∈ sp.constraints ∧ c.id = id := by
  unfold constraint? at found
  exact ⟨List.mem_of_find?_eq_some found, by simpa using List.find?_some found⟩

/-- An id is hosted if some constraint has it. -/
theorem constraint?_isSome : (sp.constraint? id).isSome ↔ ∃ c ∈ sp.constraints, c.id = id := by
  unfold constraint?
  rw [List.find?_isSome]
  simp

/-- What removing a hosted constraint yields and leaves. -/
theorem removeConstraint_eq (sk : Sketch α) (found : sp.constraint? id = some c) :
    sp.removeConstraint sk id = (.ok { c with decoration := none, space := none },
      { sp with
          constraints := sp.constraints.eraseP fun c => c.id = id
          conflicting := sp.conflicting.filter (· ≠ id) },
      (c.undecorate (sk.unregister id c.entities)).2) := by
  unfold removeConstraint
  rw [found]
  simp only [Constraint.undecorate_fst]

end Space

end SketchSolver
