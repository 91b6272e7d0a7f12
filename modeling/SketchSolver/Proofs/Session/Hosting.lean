import Mathlib.Data.List.Forall2
import Mathlib.Data.List.Nodup
import SketchSolver.Proofs.AscendingSets
import SketchSolver.Proofs.Space.Settled
import SketchSolver.Session.Editing

/-!
# What the spaces of a session host

The spaces of a session share one sketch, so they are independent of each other
only as far as the parameters that they share are drawn: those are numbered alike
in all of them. A parameter outlives its entity in the constraints that read it.
That none of these is ever shared follows from where constraints are registered:
when two spaces read one parameter, one of the constraints is registered on an
entity that has it (`Compatible`), and goes with the entity. Roots may share
parameters, too; then one of the roots may go while the other one keeps the
parameter drawn, and `Anchored` asks for one entity only.

`Orderly` is the invariant of all operations: ids differ and were given out, spaces
are regular, and any two of them are compatible. Most operations keep it because
spaces host fewer constraints, and the rest of the constraints stay where they are
registered (`Orderly.of_fewer`). `Fewer` is about what a space hosts and not about
its order, so sorting is a case of it, and so is everything that leaves the hosted
constraints alone.

What a registration is worth is said for one constraint and one parameter at a time
(`Sketch.Anchored`). It survives registering and taking off other constraints, and it
survives the removal of entities on which the constraint is not registered
(`Anchored.without`). Registering a constraint anchors all parameters of its entities
(`anchored_register`); this is what an addition rests on.

Some facts about lists that are related member by member are stated here as well,
because every operation on all spaces goes through them.
-/

namespace SketchSolver

variable {α : Type}

/-- A position in a list splits it, and setting it changes the middle. -/
theorem exists_set {β : Type} : ∀ {xs : List β} {i : Nat} {x : β}, xs[i]? = some x →
    ∃ pre post, xs = pre ++ x :: post ∧ pre.length = i ∧ ∀ y, xs.set i y = pre ++ y :: post
  | [], i, x, found => by simp at found
  | x :: xs, 0, y, found => by
    simp only [List.getElem?_cons_zero, Option.some.injEq] at found
    exact ⟨[], xs, by rw [found, List.nil_append], rfl, fun _ => rfl⟩
  | x :: xs, i + 1, y, found => by
    rw [List.getElem?_cons_succ] at found
    obtain ⟨pre, post, eq, length, set⟩ := exists_set found
    refine ⟨x :: pre, post, by rw [eq, List.cons_append], by rw [List.length_cons, length],
      fun z => ?_⟩
    rw [List.set_cons_succ, set, List.cons_append]

/-- Running over a list succeeds if it does so on every item, with the results in order. -/
theorem mapM_ok_iff {β γ ε : Type} {f : β → Except ε γ} {xs : List β} {ys : List γ} :
    xs.mapM f = .ok ys ↔ List.Forall₂ (fun x y => f x = .ok y) xs ys := by
  induction xs generalizing ys with
  | nil => cases ys <;> simp [pure, Except.pure]
  | cons x xs ih =>
    rw [List.mapM_cons]
    cases first : f x with
    | error e => cases ys <;> simp [bind, Except.bind, first]
    | ok y =>
      cases later : xs.mapM f with
      | error e => cases ys <;> simp [bind, Except.bind, ← ih, first, later]
      | ok rest => cases ys <;> simp [bind, Except.bind, pure, Except.pure, ← ih, first, later]

namespace Sketch

variable {sk sk' : Sketch α} {c d : ConstraintId} {h : Handle} {ids : List EntityId}

/-- The parameter belongs to an entity on which the constraint is registered. -/
def Anchored (sk : Sketch α) (c : ConstraintId) (h : Handle) : Prop :=
  ∃ e ∈ sk.entities, h ∈ e.shape.params ∧ c ∈ e.constraints

/-- No two entities have the same id, and ids to come are larger than all of theirs. -/
structure Distinct (sk : Sketch α) : Prop where
  nodup : (sk.entities.map (·.id)).Nodup
  issued : ∀ e ∈ sk.entities, e.id.number ≤ sk.entityCount

/-- A parameter of an entity on which something is registered is drawn. -/
theorem Anchored.drawn (anchored : sk.Anchored c h) : h ∈ sk.params := by
  obtain ⟨e, he, hh, _⟩ := anchored
  exact List.mem_flatMap.mpr ⟨e, he, hh⟩

/-- What is found under an id is there, and has that id. -/
theorem entity?_some {id : EntityId} {e : Entity} (found : sk.entity? id = some e) :
    e ∈ sk.entities ∧ e.id = id := by
  unfold entity? at found
  exact ⟨List.mem_of_find?_eq_some found, by simpa using List.find?_some found⟩

/-- Looking an entity up, with an error or without one, is the same. -/
theorem entity_ok_iff {id : EntityId} {e : Entity} :
    sk.entity id = .ok e ↔ sk.entity? id = some e := by
  unfold entity
  cases sk.entity? id with
  | none => simp
  | some e' => simp

/-- An entity of the sketch is found under its id. -/
theorem entity?_isSome {e : Entity} (he : e ∈ sk.entities) : (sk.entity? e.id).isSome := by
  unfold entity?
  rw [List.find?_isSome]
  exact ⟨e, he, by simp⟩

/-- Where ids differ, what is found under the id of an entity is the entity. -/
theorem Distinct.entity? (distinct : sk.Distinct) {e : Entity} (he : e ∈ sk.entities) :
    sk.entity? e.id = some e := by
  cases found : sk.entity? e.id with
  | none =>
    have := entity?_isSome he
    rw [found] at this
    simp at this
  | some e' =>
    obtain ⟨drawn, same⟩ := entity?_some found
    rw [List.inj_on_of_nodup_map distinct.nodup drawn he same]

theorem mem_subtree_self {e : Entity} (he : e ∈ sk.entities) : e.id ∈ sk.subtree e.id := by
  have some := entity?_isSome he
  unfold subtree
  split
  next => exact List.mem_append_right _ (List.mem_singleton_self _)
  next none =>
    rw [none] at some
    simp at some

/-! ## Registering -/

/-- Changing what is registered changes no id. -/
theorem Distinct.changeConstraints (distinct : sk.Distinct)
    (change : List ConstraintId → List ConstraintId) :
    (sk.changeConstraints ids change).Distinct := by
  refine ⟨?_, fun e he => ?_⟩
  · have same : (sk.changeConstraints ids change).entities.map (·.id) =
        sk.entities.map (·.id) := by
      unfold Sketch.changeConstraints
      rw [List.map_map]
      refine List.map_congr_left fun e _ => ?_
      simp only [Function.comp_apply]
      split
      next => rfl
      next => rfl
    rw [same]
    exact distinct.nodup
  · obtain ⟨e₀, he₀, rfl⟩ := List.mem_map.mp he
    have := distinct.issued e₀ he₀
    split
    next => exact this
    next => exact this

/-- A constraint stays anchored when it is not taken off any entity. -/
theorem Anchored.changeConstraints {change : List ConstraintId → List ConstraintId}
    (anchored : sk.Anchored d h) (kept : ∀ cs, d ∈ cs → d ∈ change cs) :
    (sk.changeConstraints ids change).Anchored d h := by
  obtain ⟨e, he, hh, registered⟩ := anchored
  refine ⟨_, List.mem_map_of_mem he, ?_⟩
  split
  next => exact ⟨hh, kept _ registered⟩
  next => exact ⟨hh, registered⟩

instance : Std.Trichotomous (α := ConstraintId) (· < ·) where
  trichotomous c d notBelow notAbove := by
    have below : ¬ c.number < d.number := notBelow
    have above : ¬ d.number < c.number := notAbove
    obtain ⟨c⟩ := c
    obtain ⟨d⟩ := d
    simp only at below above
    rw [show c = d by omega]

/-- Registering another constraint takes none off. -/
theorem Anchored.register (anchored : sk.Anchored d h) :
    (sk.register c ids).Anchored d h :=
  anchored.changeConstraints fun _ mem => Ascending.mem_insert.mpr (Or.inr mem)

/-- Taking one constraint off leaves the others registered. -/
theorem Anchored.unregister (anchored : sk.Anchored d h) (ne : d ≠ c) :
    (sk.unregister c ids).Anchored d h :=
  anchored.changeConstraints fun _ mem => List.mem_filter.mpr ⟨mem, by simpa using ne⟩

/-- Registering a constraint anchors the parameters of the entities that it is registered on. -/
theorem anchored_register {e : Entity} (he : e ∈ sk.entities) (mem : e.id ∈ ids)
    (hh : h ∈ e.shape.params) : (sk.register c ids).Anchored c h := by
  have affected : e.id ∈ ids.flatMap sk.subtree :=
    List.mem_flatMap.mpr ⟨e.id, mem, mem_subtree_self he⟩
  refine ⟨_, List.mem_map_of_mem he, ?_⟩
  rw [if_pos affected]
  exact ⟨hh, Ascending.mem_insert.mpr (Or.inl rfl)⟩

/-! ## Entities that go -/

/-- Fewer entities still have ids of their own. -/
theorem Distinct.without (distinct : sk.Distinct) : (sk.without ids).Distinct :=
  ⟨distinct.nodup.sublist (List.filter_sublist.map _),
    fun e he => distinct.issued e (List.mem_filter.mp he).1⟩

/-- What is registered on no entity that goes stays where it is registered. -/
theorem Anchored.without (anchored : sk.Anchored c h) (distinct : sk.Distinct)
    (free : c ∉ ids.flatMap sk.constraintsOf) : (sk.without ids).Anchored c h := by
  obtain ⟨e, he, hh, registered⟩ := anchored
  -- the entity stays, for otherwise the constraint would be one of those registered on what goes
  refine ⟨e, List.mem_filter.mpr ⟨he, ?_⟩, hh, registered⟩
  refine decide_eq_true fun mem => free (List.mem_flatMap.mpr ⟨e.id, mem, ?_⟩)
  unfold constraintsOf
  rw [distinct.entity? he]
  exact registered

end Sketch

namespace Session

open Space (Worked)

variable {spaces spaces' rest : List (Space α)} {sp sp' tp : Space α} {sk sk' : Sketch α}
variable {c : Constraint} {h : Handle}

/-- Two spaces host different constraints, and a parameter that both read belongs to an entity on
which one of the constraints is registered. -/
structure Compatible (sk : Sketch α) (sp tp : Space α) : Prop where
  distinct : ∀ c ∈ sp.constraints, ∀ d ∈ tp.constraints, c.id ≠ d.id
  anchored : ∀ c ∈ sp.constraints, ∀ d ∈ tp.constraints, ∀ h, h ∈ c.params → h ∈ d.params →
    sk.Anchored c.id h ∨ sk.Anchored d.id h

namespace Compatible

/-- Compatibility does not depend on which of the two spaces comes first. -/
theorem symm (compatible : Compatible sk sp tp) : Compatible sk tp sp :=
  ⟨fun c hc d hd => (compatible.distinct d hd c hc).symm,
    fun c hc d hd h mem mem' => (compatible.anchored d hd c hc h mem' mem).symm⟩

theorem of_entities (compatible : Compatible sk sp tp) (entities : sk'.entities = sk.entities) :
    Compatible sk' sp tp := by
  refine ⟨compatible.distinct, fun c hc d hd h mem mem' => ?_⟩
  unfold Sketch.Anchored
  rw [entities]
  exact compatible.anchored c hc d hd h mem mem'

/-- What two spaces share is drawn. -/
theorem shared (compatible : Compatible sk sp tp) (mem : h ∈ sp.hostedParams)
    (mem' : h ∈ tp.hostedParams) : h ∈ sk.params := by
  obtain ⟨c, hc, hh⟩ := List.mem_flatMap.mp mem
  obtain ⟨d, hd, hh'⟩ := List.mem_flatMap.mp mem'
  rcases compatible.anchored c hc d hd h hh hh' with anchored | anchored
  · exact anchored.drawn
  · exact anchored.drawn

end Compatible

/-- The invariant of a session. -/
structure Orderly (spaces : List (Space α)) (sk : Sketch α) : Prop where
  entities : sk.Distinct
  regular : ∀ sp ∈ spaces, sp.Regular
  issued : ∀ sp ∈ spaces, ∀ c ∈ sp.constraints, c.id.number ≤ sk.constraintCount
  distinct : ∀ sp ∈ spaces, (sp.constraints.map (·.id)).Nodup
  compatible : spaces.Pairwise (Compatible sk)

/-- The space hosts no constraint that it did not host before. -/
structure Fewer (sp sp' : Space α) : Prop where
  index : sp'.index = sp.index
  constraints : ∀ c ∈ sp'.constraints, c ∈ sp.constraints
  distinct : (sp.constraints.map (·.id)).Nodup → (sp'.constraints.map (·.id)).Nodup
  conflicting : sp.conflicting = [] → sp'.conflicting = []

theorem Fewer.refl (sp : Space α) : Fewer sp sp := ⟨rfl, fun _ hc => hc, id, id⟩

/-- A space that is sorted anew hosts what it hosted. -/
theorem Fewer.of_perm (index : sp'.index = sp.index) (same : sp'.constraints.Perm sp.constraints)
    (conflicting : sp'.conflicting = sp.conflicting) : Fewer sp sp' :=
  ⟨index, fun _ hc => same.mem_iff.mp hc, fun nodup => (same.map _).nodup_iff.mpr nodup,
    fun none => conflicting.trans none⟩

/-- Every space hosts no more than itself. -/
theorem forall₂_refl : ∀ (spaces : List (Space α)), List.Forall₂ Fewer spaces spaces
  | [] => .nil
  | sp :: rest => .cons (.refl sp) (forall₂_refl rest)

theorem forall₂_map {f : Space α → Space α} (each : ∀ sp, Fewer sp (f sp)) :
    List.Forall₂ Fewer spaces (spaces.map f) :=
  List.forall₂_map_right_iff.mpr (List.forall₂_same.mpr fun sp _ => each sp)

/-- Every member of the second list is related to one of the first. -/
theorem exists_of_forall₂ {β γ : Type} {R : β → γ → Prop} {xs : List β} {ys : List γ} {y : γ}
    (all : List.Forall₂ R xs ys) (mem : y ∈ ys) : ∃ x ∈ xs, R x y := by
  induction all with
  | nil => exact absurd mem List.not_mem_nil
  | cons head _ ih =>
    rcases List.mem_cons.mp mem with rfl | mem
    · exact ⟨_, List.mem_cons_self, head⟩
    · obtain ⟨x, hx, r⟩ := ih mem
      exact ⟨x, List.mem_cons_of_mem _ hx, r⟩

/-- A relation between the members of a list carries over to related members of another one. -/
theorem pairwise_of_forall₂ {β : Type} {R S : β → β → Prop} {xs ys : List β}
    (all : List.Forall₂ S xs ys) (pairwise : xs.Pairwise R)
    (carry : ∀ x x' y y', S x y → S x' y' → R x x' → R y y') : ys.Pairwise R := by
  induction all with
  | nil => exact .nil
  | cons head tail ih =>
    obtain ⟨first, later⟩ := List.pairwise_cons.mp pairwise
    refine List.pairwise_cons.mpr ⟨fun y mem => ?_, ih later⟩
    obtain ⟨x, hx, r⟩ := exists_of_forall₂ tail mem
    exact carry _ _ _ _ head r (first x hx)

namespace Orderly

theorem perm (orderly : Orderly spaces sk) (same : spaces'.Perm spaces) :
    Orderly spaces' sk :=
  ⟨orderly.entities, fun sp mem => orderly.regular sp (same.mem_iff.mp mem),
    fun sp mem => orderly.issued sp (same.mem_iff.mp mem),
    fun sp mem => orderly.distinct sp (same.mem_iff.mp mem),
    (same.symm.pairwise_iff Compatible.symm).mp orderly.compatible⟩

theorem tail (orderly : Orderly (sp :: rest) sk) : Orderly rest sk :=
  ⟨orderly.entities, fun tp mem => orderly.regular tp (List.mem_cons_of_mem _ mem),
    fun tp mem => orderly.issued tp (List.mem_cons_of_mem _ mem),
    fun tp mem => orderly.distinct tp (List.mem_cons_of_mem _ mem),
    (List.pairwise_cons.mp orderly.compatible).2⟩

/-- **Spaces that host fewer constraints stay in order**, if what is left stays where it is
registered. -/
theorem of_fewer (orderly : Orderly spaces sk) (fewer : List.Forall₂ Fewer spaces spaces')
    (entities : sk'.Distinct) (count : sk.constraintCount ≤ sk'.constraintCount)
    (kept : ∀ sp ∈ spaces', ∀ c ∈ sp.constraints, ∀ h, sk.Anchored c.id h →
      sk'.Anchored c.id h) : Orderly spaces' sk' := by
  -- on the sketch as it was the spaces are compatible, since each pair was when it hosted more
  have compatible : spaces'.Pairwise (Compatible sk) := by
    refine pairwise_of_forall₂ fewer orderly.compatible fun sp tp sp' tp' fs ft both => ?_
    exact ⟨fun c hc d hd => both.distinct c (fs.constraints c hc) d (ft.constraints d hd),
      fun c hc d hd => both.anchored c (fs.constraints c hc) d (ft.constraints d hd)⟩
  refine ⟨entities, fun sp' mem => ?_, fun sp' mem c hc => ?_, fun sp' mem => ?_, ?_⟩
  · obtain ⟨sp, hsp, few⟩ := exists_of_forall₂ fewer mem
    have regular := orderly.regular sp hsp
    exact ⟨fun c hc => regular.fits c (few.constraints c hc), few.conflicting regular.unmarked⟩
  · obtain ⟨sp, hsp, few⟩ := exists_of_forall₂ fewer mem
    have := orderly.issued sp hsp c (few.constraints c hc)
    omega
  · obtain ⟨sp, hsp, few⟩ := exists_of_forall₂ fewer mem
    exact few.distinct (orderly.distinct sp hsp)
  · refine compatible.imp_of_mem fun {sp tp} msp mtp both => ⟨both.distinct, ?_⟩
    intro c hc d hd h mem mem'
    exact (both.anchored c hc d hd h mem mem').imp (kept sp msp c hc h) (kept tp mtp d hd h)

theorem of_spaces (orderly : Orderly spaces sk) (fewer : List.Forall₂ Fewer spaces spaces') :
    Orderly spaces' sk :=
  orderly.of_fewer fewer orderly.entities (Nat.le_refl _) fun _ _ _ _ _ anchored => anchored

/-- Ids of constraints may be given out. -/
theorem of_entities (orderly : Orderly spaces sk) (entities : sk'.entities = sk.entities)
    (entityCount : sk'.entityCount = sk.entityCount)
    (constraintCount : sk.constraintCount ≤ sk'.constraintCount) : Orderly spaces sk' := by
  refine orderly.of_fewer (forall₂_refl spaces) ⟨?_, ?_⟩ constraintCount
    fun sp _ c _ h anchored => ?_
  · rw [entities]
    exact orderly.entities.nodup
  · rw [entities, entityCount]
    exact orderly.entities.issued
  · unfold Sketch.Anchored
    rw [entities]
    exact anchored

/-- A space that hosts nothing is compatible with all others. -/
theorem append_empty (orderly : Orderly spaces sk) (none : sp.constraints = [])
    (unmarked : sp.conflicting = []) : Orderly (spaces ++ [sp]) sk := by
  have hosts : ∀ c, c ∉ sp.constraints := fun c mem => by simp [none] at mem
  refine ⟨orderly.entities, fun tp mem => ?_, fun tp mem c hc => ?_, fun tp mem => ?_,
    List.pairwise_append.mpr ⟨orderly.compatible, List.pairwise_singleton _ _, ?_⟩⟩
  · rcases List.mem_append.mp mem with old | new
    · exact orderly.regular tp old
    · rw [List.mem_singleton.mp new]
      exact ⟨fun c hc => absurd hc (hosts c), unmarked⟩
  · rcases List.mem_append.mp mem with old | new
    · exact orderly.issued tp old c hc
    · rw [List.mem_singleton.mp new] at hc
      exact absurd hc (hosts c)
  · rcases List.mem_append.mp mem with old | new
    · exact orderly.distinct tp old
    · rw [List.mem_singleton.mp new, none]
      exact List.nodup_nil
  · intro tp _ sp' mem
    rw [List.mem_singleton.mp mem]
    exact ⟨fun c _ d hd => absurd hd (hosts d), fun c _ d hd => absurd hd (hosts d)⟩

end Orderly

end Session

end SketchSolver
