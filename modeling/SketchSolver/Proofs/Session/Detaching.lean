import Mathlib.Algebra.GroupWithZero.Nat
import Mathlib.Algebra.Order.BigOperators.Group.List
import Mathlib.Algebra.Order.Group.Nat
import Mathlib.Data.List.Flatten
import SketchSolver.Proofs.Session.Adding

/-!
# Taking constraints out of a session

What takes a constraint out of its space leaves the loaded problem as it is. That
is made good when the session is prepared anew, which removing constraints does
unless one of them is not found, and removing entities does always. Clearing a
session does not.

A constraint is taken off the entities too, so none is left that reads parameters of
an entity that goes (`removeEntity_inOrder`): the constraints registered on an entity are
exactly those that anchor its parameters.

Removing goes through the list of spaces and stops at the first one that hosts the id.
No id is hosted twice (`Orderly.ids`), so it does not matter where it stops, and what is
left is the same as dropping the id from every space (`detachFrom_eq`). That form is easier
to reason about: several removals are a filter, and in any order.

On the side of the sketch the same is said by `Released`. Constraints that are gone may
have been taken off any entities, and all others are registered as before; which entities
there are and what belongs to them does not change. Decorations do not appear, because
nothing here depends on them.

`Freed` puts both together for a session. It also counts: the equations that are loaded
stay the same, and those that are demanded can only become fewer. A count is all that is
needed later to see that a session is out of step (`demandedOf_dropping_lt`).
-/

namespace SketchSolver

variable {α : Type}

/-- Dropping an id that is not there drops nothing. -/
theorem filter_id_of_absent {cs : List Constraint} {id : ConstraintId}
    (absent : ∀ c ∈ cs, c.id ≠ id) : (cs.filter fun c => c.id ≠ id) = cs :=
  List.filter_eq_self.mpr fun c mem => by simpa using absent c mem

/-- Where ids differ, taking out the first constraint with an id takes out all of them. -/
theorem eraseP_id {cs : List Constraint} (distinct : (cs.map (·.id)).Nodup) (id : ConstraintId) :
    cs.eraseP (fun c => c.id = id) = cs.filter fun c => c.id ≠ id := by
  rw [eraseP_eq_filter]
  · exact List.filter_congr fun c _ => by simp
  · refine (List.pairwise_map.mp distinct).imp fun ne both => ne ?_
    rw [of_decide_eq_true both.1, of_decide_eq_true both.2]

namespace Sketch

variable {sk sk' sk'' : Sketch α} {gone gone' : List ConstraintId} {c : Constraint}

/-- The sketch in which some constraints may have been taken off entities, and others were not. -/
structure Released (gone : List ConstraintId) (sk sk' : Sketch α) : Prop where
  distinct : sk.Distinct → sk'.Distinct
  anchored : ∀ d, d ∉ gone → ∀ h, sk.Anchored d h → sk'.Anchored d h
  count : sk'.constraintCount = sk.constraintCount
  subtree : ∀ id, sk'.subtree id = sk.subtree id
  constraintsOf : ∀ id, ∀ d ∈ sk'.constraintsOf id, d ∈ sk.constraintsOf id

namespace Released

theorem refl (gone : List ConstraintId) (sk : Sketch α) : Released gone sk sk :=
  ⟨id, fun _ _ _ => id, rfl, fun _ => rfl, fun _ _ => id⟩

theorem trans (h₁ : Released gone sk sk') (h₂ : Released gone' sk' sk'') :
    Released (gone ++ gone') sk sk'' := by
  refine ⟨h₂.distinct ∘ h₁.distinct, fun d free h anchored => ?_, h₂.count.trans h₁.count,
    fun id => (h₂.subtree id).trans (h₁.subtree id),
    fun id d mem => h₁.constraintsOf id d (h₂.constraintsOf id d mem)⟩
  rw [List.mem_append, not_or] at free
  exact h₂.anchored d free.2 h (h₁.anchored d free.1 h anchored)

end Released

/-- What is found under an id is the entity from before, with other constraints if it is affected.
-/
theorem entity?_changeConstraints (sk : Sketch α) (ids : List EntityId)
    (change : List ConstraintId → List ConstraintId) (id : EntityId) :
    (sk.changeConstraints ids change).entity? id = (sk.entity? id).map fun e =>
      if e.id ∈ ids.flatMap sk.subtree then { e with constraints := change e.constraints }
      else e := by
  unfold entity? changeConstraints
  rw [List.find?_map]
  congr 1
  refine congrArg (fun p => List.find? p sk.entities) (funext fun e => ?_)
  simp only [Function.comp_apply]
  split
  next => rfl
  next => rfl

/-- Which points belong to an entity does not depend on what is registered. -/
theorem subtree_changeConstraints (sk : Sketch α) (ids : List EntityId)
    (change : List ConstraintId → List ConstraintId) (id : EntityId) :
    (sk.changeConstraints ids change).subtree id = sk.subtree id := by
  have same : (sk.changeConstraints ids change).contains = sk.contains := by
    funext other
    unfold contains
    rw [entity?_changeConstraints, Option.isSome_map]
  unfold subtree
  rw [entity?_changeConstraints, same]
  cases sk.entity? id with
  | none => rfl
  | some e =>
    simp only [Option.map_some]
    split
    next => rfl
    next => rfl

/-- Taking a constraint off registers none. -/
theorem mem_constraintsOf_unregister {c d : ConstraintId} {ids : List EntityId} {id : EntityId}
    (mem : d ∈ (sk.unregister c ids).constraintsOf id) : d ∈ sk.constraintsOf id := by
  unfold constraintsOf unregister at mem
  rw [entity?_changeConstraints] at mem
  unfold constraintsOf
  cases found : sk.entity? id with
  | none =>
    rw [found] at mem
    exact mem
  | some e =>
    rw [found] at mem
    simp only [Option.map_some] at mem
    split at mem
    next => exact (List.mem_filter.mp mem).1
    next => exact mem

/-- Taking a constraint off its entities, and freeing its decoration, leaves the others. -/
theorem released_undecorate (sk : Sketch α) (c : Constraint) :
    Released [c.id] sk (c.undecorate (sk.unregister c.id c.entities)).2 := by
  rw [Constraint.undecorate_eq]
  refine ⟨fun distinct => ⟨(distinct.changeConstraints _).nodup,
    (distinct.changeConstraints _).issued⟩, fun d free h anchored => ?_, rfl,
    subtree_changeConstraints sk c.entities _, fun _ _ => mem_constraintsOf_unregister⟩
  exact anchored.unregister fun same => free (List.mem_singleton.mpr same)

end Sketch

/-- The space without the constraint with an id. -/
def Space.dropping (sp : Space α) (id : ConstraintId) : Space α :=
  { sp with constraints := sp.constraints.filter fun c => c.id ≠ id }

namespace Session

variable {s s' s'' : Session α} {spaces : List (Space α)} {sp : Space α} {sk : Sketch α}
variable {id : ConstraintId} {gone gone' : List ConstraintId}

/-- A space that does not host an id drops nothing. -/
theorem dropping_of_absent (absent : ∀ c ∈ sp.constraints, c.id ≠ id) : sp.dropping id = sp := by
  unfold Space.dropping
  rw [filter_id_of_absent absent]

/-- Taking a constraint out of a space where ids differ and all constraints take part. -/
theorem removeConstraint_space (unmarked : sp.conflicting = [])
    (distinct : (sp.constraints.map (·.id)).Nodup) (sk : Sketch α) {c : Constraint}
    (found : sp.constraint? id = some c) :
    sp.removeConstraint sk id = (.ok { c with decoration := none, space := none }, sp.dropping id,
      (c.undecorate (sk.unregister c.id c.entities)).2) := by
  have eq := Space.removeConstraint_eq sk found
  obtain ⟨_, rfl⟩ := Space.constraint?_some found
  rw [eraseP_id distinct, unmarked] at eq
  rw [eq]
  unfold Space.dropping
  rw [unmarked]
  rfl

/-- An id that no space hosts is not found, and nothing changes. -/
theorem detachFrom_absent : ∀ {spaces : List (Space α)} (sk : Sketch α),
    (∀ sp ∈ spaces, ∀ c ∈ sp.constraints, c.id ≠ id) →
    detachFrom id spaces sk = (.error (.constraintNotFound id), spaces, sk)
  | [], sk, _ => rfl
  | sp :: rest, sk, absent => by
    have free : ¬ sp.contains id = true := by
      intro hosts
      obtain ⟨c, hc, same⟩ := Space.constraint?_isSome.mp hosts
      exact absent sp List.mem_cons_self c hc same
    unfold detachFrom
    rw [if_neg free, detachFrom_absent sk fun tp mem => absent tp (List.mem_cons_of_mem _ mem)]

/-- A constraint is taken out of the space that hosts it. Since no other one does, it is as if it were
taken out of all of them. -/
theorem detachFrom_eq (sk : Sketch α) {c : Constraint} : ∀ {spaces : List (Space α)},
    (∀ sp ∈ spaces, sp.conflicting = []) →
    ((spaces.flatMap (·.constraints)).map (·.id)).Nodup → c ∈ spaces.flatMap (·.constraints) →
    detachFrom c.id spaces sk = (.ok { c with decoration := none, space := none },
      spaces.map (·.dropping c.id), (c.undecorate (sk.unregister c.id c.entities)).2)
  | [], _, _, hosted => absurd hosted List.not_mem_nil
  | sp :: rest, unmarked, distinct, hosted => by
    rw [List.flatMap_cons, List.map_append] at distinct
    obtain ⟨here, later, apart⟩ := List.nodup_append.mp distinct
    rw [List.flatMap_cons] at hosted
    unfold detachFrom
    by_cases hosts : sp.contains c.id = true
    · obtain ⟨d, found⟩ := Option.isSome_iff_exists.mp hosts
      obtain ⟨hd, same⟩ := Space.constraint?_some found
      have elsewhere : ∀ tp ∈ rest, ∀ e ∈ tp.constraints, e.id ≠ c.id := fun tp mem e he eq =>
        apart d.id (List.mem_map_of_mem hd) e.id
          (List.mem_map_of_mem (List.mem_flatMap.mpr ⟨tp, mem, he⟩)) (same.trans eq.symm)
      -- the id is hosted here, so nowhere else
      have others : rest.map (·.dropping c.id) = rest :=
        (List.map_congr_left fun tp mem => dropping_of_absent (elsewhere tp mem)).trans
          (List.map_id _)
      have mem : c ∈ sp.constraints := by
        rcases List.mem_append.mp hosted with mem | mem
        · exact mem
        · obtain ⟨tp, htp, hc⟩ := List.mem_flatMap.mp mem
          exact absurd rfl (elsewhere tp htp c hc)
      obtain rfl : d = c := List.inj_on_of_nodup_map here hd mem same
      rw [if_pos hosts, removeConstraint_space (unmarked sp List.mem_cons_self) here sk found,
        List.map_cons, others]
    · have absent : ∀ d ∈ sp.constraints, d.id ≠ c.id := fun d mem same =>
        hosts (Space.constraint?_isSome.mpr ⟨d, mem, same⟩)
      have mem := (List.mem_append.mp hosted).resolve_left fun mem => absent c mem rfl
      rw [if_neg hosts, detachFrom_eq sk (fun tp mem => unmarked tp (List.mem_cons_of_mem _ mem))
        later mem, List.map_cons, dropping_of_absent absent]

/-- No id is hosted twice, in one space or in two. -/
theorem Orderly.ids : ∀ {spaces : List (Space α)}, Orderly spaces sk →
    ((spaces.flatMap (·.constraints)).map (·.id)).Nodup
  | [], _ => .nil
  | sp :: rest, orderly => by
    rw [List.flatMap_cons, List.map_append, List.nodup_append]
    refine ⟨orderly.distinct sp List.mem_cons_self, orderly.tail.ids, fun id mem id' mem' => ?_⟩
    obtain ⟨c, hc, rfl⟩ := List.mem_map.mp mem
    obtain ⟨d, hd, rfl⟩ := List.mem_map.mp mem'
    obtain ⟨tp, htp, hd⟩ := List.mem_flatMap.mp hd
    exact ((List.pairwise_cons.mp orderly.compatible).1 tp htp).distinct c hc d hd

/-- A hosted constraint is found, given out, and taken off its entities. -/
theorem detachFrom_hosted (orderly : Orderly spaces sk)
    (hosted : ∃ sp ∈ spaces, ∃ c ∈ sp.constraints, c.id = id) :
    ∃ removed sk', detachFrom id spaces sk = (.ok removed, spaces.map (·.dropping id), sk') ∧
      sk.Released [id] sk' := by
  obtain ⟨sp, mem, c, hc, rfl⟩ := hosted
  exact ⟨_, _, detachFrom_eq sk (fun sp mem => (orderly.regular sp mem).unmarked) orderly.ids
    (List.mem_flatMap.mpr ⟨sp, mem, hc⟩), sk.released_undecorate c⟩

/-! ## Taking out of the session -/

/-- How many equations the problems of all spaces have. -/
def loaded (s : Session α) : Nat :=
  (s.spaces.map fun sp => sp.problem.equations.toList.length).sum

/-- How many equations the constraints of a space demand. -/
def demandedOf (sp : Space α) : Nat :=
  (sp.constraints.flatMap (Constraint.demands (α := α))).length

/-- How many equations the hosted constraints demand. -/
def demanded (s : Session α) : Nat := (s.spaces.map demandedOf).sum

/-- What taking constraints out of a session leaves. -/
structure Freed (gone : List ConstraintId) (s s' : Session α) : Prop where
  inOrder : s'.InOrder
  hosts : ∀ i d, Hosts s'.spaces i d ↔ Hosts s.spaces i d ∧ d.id ∉ gone
  sketch : s.sketch.Released gone s'.sketch
  inTransaction : s'.inTransaction = s.inTransaction
  loaded : s'.loaded = s.loaded
  demanded : s'.demanded ≤ s.demanded

theorem Freed.trans (h₁ : Freed gone s s') (h₂ : Freed gone' s' s'') :
    Freed (gone ++ gone') s s'' := by
  refine ⟨h₂.inOrder, fun i d => ?_, h₁.sketch.trans h₂.sketch,
    h₂.inTransaction.trans h₁.inTransaction, h₂.loaded.trans h₁.loaded,
    Nat.le_trans h₂.demanded h₁.demanded⟩
  rw [h₂.hosts, h₁.hosts, List.mem_append, not_or, and_assoc]

/-- Fewer constraints demand fewer equations. -/
theorem demandedOf_dropping_le (sp : Space α) (id : ConstraintId) :
    demandedOf (sp.dropping id) ≤ demandedOf sp :=
  ((List.filter_sublist (l := sp.constraints)).flatMap _).length_le

/-- Every constraint demands at least one equation, so one less is noticed. -/
theorem demandedOf_dropping_lt {c : Constraint} (mem : c ∈ sp.constraints) (fits : c.Fits) :
    demandedOf (sp.dropping c.id) < demandedOf sp := by
  obtain ⟨before, after, split⟩ := List.append_of_mem mem
  -- the demands of the constraint are missing, and there is at least one
  have fewer : (sp.constraints.filter fun d => d.id ≠ c.id).Sublist (before ++ after) := by
    rw [split, List.filter_append, List.filter_cons_of_neg (by simp)]
    exact List.filter_sublist.append List.filter_sublist
  have le := (fewer.flatMap (Constraint.demands (α := α))).length_le
  obtain ⟨e, he, _⟩ := Constraint.exists_mentioning (α := α) fits
  have some := List.length_pos_of_mem he
  unfold demandedOf Space.dropping
  rw [split] at le ⊢
  simp only [List.flatMap_append, List.flatMap_cons, List.length_append] at le ⊢
  omega

/-- A constraint that nobody hosts is not found. -/
theorem detach_absent (absent : ∀ i d, Hosts s.spaces i d → d.id ≠ id) :
    s.detach id = (.error (.constraintNotFound id), s) := by
  unfold detach
  rw [detachFrom_absent s.sketch fun sp mem d hd => ?_]
  obtain ⟨i, at'⟩ := List.mem_iff_getElem?.mp mem
  exact absent i d ⟨sp, at', hd⟩

/-- **Taking a hosted constraint out** keeps the session in order. The problems stay as they are, so
they have more equations than the constraints demand. -/
theorem detach_hosted (inOrder : s.InOrder) {i : Nat} {c : Constraint}
    (hosted : Hosts s.spaces i c) : ∃ removed s', s.detach c.id = (.ok removed, s') ∧
      Freed [c.id] s s' ∧ s'.demanded < s.demanded := by
  obtain ⟨sp, at', hc⟩ := hosted
  have mem := List.mem_of_getElem? at'
  have orderly := inOrder.orderly
  obtain ⟨removed, sk', eq, released⟩ := detachFrom_hosted orderly ⟨sp, mem, c, hc, rfl⟩
  have fits := (orderly.regular sp mem).fits c hc
  have lt : demanded { s with spaces := s.spaces.map (·.dropping c.id), sketch := sk' } <
      s.demanded := by
    unfold demanded
    rw [List.map_map]
    exact List.sum_lt_sum _ _ (fun tp _ => demandedOf_dropping_le tp c.id)
      ⟨sp, mem, demandedOf_dropping_lt hc fits⟩
  -- no space has a constraint with this id any more, so what is still registered is hosted
  have free : ∀ tp ∈ s.spaces.map (·.dropping c.id), ∀ d ∈ tp.constraints, d.id ≠ c.id := by
    intro tp mem d hd
    obtain ⟨tp₀, _, rfl⟩ := List.mem_map.mp mem
    simpa using (List.mem_filter.mp hd).2
  refine ⟨removed, { s with spaces := s.spaces.map (·.dropping c.id), sketch := sk' }, ?_,
    ⟨⟨?_, fun idle tp mem => ?_⟩, ?_, released, rfl, ?_, Nat.le_of_lt lt⟩, lt⟩
  · unfold detach
    rw [eq]
  · refine orderly.of_fewer ?_ (released.distinct orderly.entities)
      (Nat.le_of_eq released.count.symm) fun tp mem d hd =>
        released.anchored d.id fun gone => free tp mem d hd (List.mem_singleton.mp gone)
    exact forall₂_map fun tp => ⟨rfl, fun d hd => (List.mem_filter.mp hd).1,
      fun nodup => nodup.sublist (List.filter_sublist.map _), id⟩
  · obtain ⟨tp₀, mem₀, rfl⟩ := List.mem_map.mp mem
    exact inOrder.idle idle tp₀ mem₀
  · intro i d
    constructor
    · rintro ⟨tp, at', hd⟩
      have gone := free tp (List.mem_of_getElem? at') d hd
      simp only at at'
      rw [List.getElem?_map, Option.map_eq_some_iff] at at'
      obtain ⟨tp₀, at₀, rfl⟩ := at'
      exact ⟨⟨tp₀, at₀, (List.mem_filter.mp hd).1⟩, fun mem => gone (List.mem_singleton.mp mem)⟩
    · rintro ⟨⟨tp, at', hd⟩, gone⟩
      refine ⟨tp.dropping c.id, ?_, List.mem_filter.mpr ⟨hd, ?_⟩⟩
      · simp only
        rw [List.getElem?_map, at']
        rfl
      · simpa using gone
  · unfold loaded
    rw [List.map_map]
    rfl

/-- Taking a constraint out, whether it is there or not. -/
theorem detach_freed (inOrder : s.InOrder) (id : ConstraintId) : Freed [id] s (s.detach id).2 := by
  by_cases hosted : ∃ i d, Hosts s.spaces i d ∧ d.id = id
  · obtain ⟨i, c, hosted, rfl⟩ := hosted
    obtain ⟨removed, s', eq, freed, _⟩ := detach_hosted inOrder hosted
    rw [eq]
    exact freed
  · have absent : ∀ i d, Hosts s.spaces i d → d.id ≠ id := fun i d hd same =>
      hosted ⟨i, d, hd, same⟩
    rw [detach_absent absent]
    refine ⟨inOrder, fun i d => ⟨fun hd => ⟨hd, fun mem => ?_⟩, fun both => both.1⟩, .refl _ _, rfl,
      rfl, Nat.le_refl _⟩
    exact absent i d hd (List.mem_singleton.mp mem)

theorem Freed.refl (inOrder : s.InOrder) : Freed [] s s :=
  ⟨inOrder, fun _ _ => ⟨fun hd => ⟨hd, List.not_mem_nil⟩, fun both => both.1⟩, .refl _ _, rfl, rfl,
    Nat.le_refl _⟩

end Session

end SketchSolver
