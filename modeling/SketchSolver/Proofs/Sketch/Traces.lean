import SketchSolver.Proofs.Sketch.Families

/-!
# Constraints that can be created again

Creating a constraint takes as many entities as its kind relates, with as many parameters as
it reads (`Affords`). Entities come and go, but no id is given out twice and no entity
changes its sort of shape (`Retains`). So a constraint leaves a trace: as long as its
entities are there, its parameters are theirs (`Traces.owned`), and they would do for it
once more (`Traces.affords`), also on another sketch that has the same entities.

A trace has to survive what happens to the sketch. Of the entities of a constraint some may
be gone, so it cannot be said that the parameters are those of its entities. What can be
said is that there are shapes, one for each entity, that the parameters are made of, and
that an entity that is there has the shape in question (`Traces.shapes`). An id that is gone
stays gone, so this holds for it without a reason.

`Retains` is what every change of a sketch has in common: families stay in order, constraints
registered have numbers that were given out, the counters do not fall, and what is found
under an old id has the shape from before or is not found. It is reflexive and transitive,
so a run retains what its steps retain, and the modules about operations show one step each.
Shapes are sorts of figures with the handles of their parameters; values of parameters are
in the store and no part of them, hence moving an entity retains all.

Two results leave this module. A constraint of a session can be created anew on a sketch
with the same entities, and gets the same parameters. And a parameter that it reads belongs
to a root among the families of its entities (`Traces.reads`), even when other roots have
the same parameter.
-/

namespace SketchSolver

variable {α : Type}

/-- Shapes of one sort have equally many parameters. -/
theorem Shape.length_params_of_name {shape shape' : Shape} (same : shape'.name = shape.name) :
    shape'.params.length = shape.params.length := by
  cases shape <;> cases shape' <;> simp [name] at same <;> rfl

/-- In a list that is related to another one every item has its counterpart. -/
theorem exists_of_mem_forall₂ {β γ : Type} {R : β → γ → Prop} {xs : List β} {ys : List γ} {x : β}
    (all : List.Forall₂ R xs ys) (mem : x ∈ xs) : ∃ y, R x y := by
  obtain ⟨y, _, r⟩ := Session.exists_of_forall₂ (List.Forall₂.flip all) mem
  exact ⟨y, r⟩

namespace Sketch

variable {sk sk' sk'' : Sketch α} {c : Constraint} {kind : Kind} {ids : List EntityId}

/-! ## Sketches that keep ids apart -/

/-- The constraints that are registered on entities have ids that were given out. -/
def Numbered (sk : Sketch α) : Prop :=
  ∀ e ∈ sk.entities, ∀ c ∈ e.constraints, c.number ≤ sk.constraintCount

/-- What the sketch has under an id that was given out before is the shape from before, or
nothing. Families stay in order, and so do the ids of constraints. -/
structure Retains (sk sk' : Sketch α) : Prop where
  families : sk.Families → sk'.Families
  numbered : sk.Numbered → sk'.Numbered
  entityCount : sk.entityCount ≤ sk'.entityCount
  constraintCount : sk.constraintCount ≤ sk'.constraintCount
  shapes : ∀ id e', id.number ≤ sk.entityCount → sk'.entity? id = some e' →
    ∃ e, sk.entity? id = some e ∧ e.shape = e'.shape

namespace Retains

/-- A change that leaves the entities and their counter alone retains all. -/
theorem of_entities (entities : sk'.entities = sk.entities)
    (entityCount : sk'.entityCount = sk.entityCount)
    (constraintCount : sk.constraintCount ≤ sk'.constraintCount) : sk.Retains sk' := by
  refine ⟨fun families => families.of_entities entities entityCount, fun numbered e he c hc => ?_,
    Nat.le_of_eq entityCount.symm, constraintCount, fun id e' _ found => ⟨e', ?_, rfl⟩⟩
  · rw [entities] at he
    exact Nat.le_trans (numbered e he c hc) constraintCount
  · unfold entity? at found ⊢
    rw [← entities]
    exact found

theorem refl (sk : Sketch α) : sk.Retains sk := of_entities rfl rfl (Nat.le_refl _)

/-- What happens to parameters does not matter. -/
theorem of_store (same : sk' = { sk with store := sk'.store }) : sk.Retains sk' := by
  rw [same]
  exact of_entities rfl rfl (Nat.le_refl _)

theorem trans (h₁ : sk.Retains sk') (h₂ : sk'.Retains sk'') : sk.Retains sk'' := by
  refine ⟨h₂.families ∘ h₁.families, h₂.numbered ∘ h₁.numbered,
    Nat.le_trans h₁.entityCount h₂.entityCount, Nat.le_trans h₁.constraintCount h₂.constraintCount,
    fun id e'' issued found => ?_⟩
  obtain ⟨e', found', same'⟩ := h₂.shapes id e'' (Nat.le_trans issued h₁.entityCount) found
  obtain ⟨e, found, same⟩ := h₁.shapes id e' issued found'
  exact ⟨e, found, same.trans same'⟩

/-- What is registered may change, as long as it is by numbers that were given out. -/
theorem changeConstraints (sk : Sketch α) (ids : List EntityId)
    {change : List ConstraintId → List ConstraintId}
    (numbers : ∀ cs, ∀ c ∈ change cs, c ∈ cs ∨ c.number ≤ sk.constraintCount) :
    sk.Retains (sk.changeConstraints ids change) := by
  refine ⟨fun families => families.of_fewer (families.changeConstraints change) (fun e he => ?_)
    (Nat.le_refl _) fun _ _ id _ there => ?_, fun numbered e he c hc => ?_, Nat.le_refl _,
    Nat.le_refl _, fun id e' _ found => ?_⟩
  · obtain ⟨e, old, rfl⟩ := List.mem_map.mp he
    refine ⟨e.constraints, ?_⟩
    split
    next => exact old
    next => exact old
  · unfold contains at there ⊢
    rw [entity?_changeConstraints, Option.isSome_map]
    exact there
  · obtain ⟨e, old, rfl⟩ := List.mem_map.mp he
    split at hc
    next => exact (numbers _ c hc).elim (numbered e old c) id
    next => exact numbered e old c hc
  · rw [entity?_changeConstraints, Option.map_eq_some_iff] at found
    obtain ⟨e, found, rfl⟩ := found
    refine ⟨e, found, ?_⟩
    split
    next => rfl
    next => rfl

/-- Registering a constraint retains all, given that its number was given out. -/
theorem register {c : ConstraintId} (issued : c.number ≤ sk.constraintCount)
    (ids : List EntityId) : sk.Retains (sk.register c ids) :=
  changeConstraints sk ids fun _ _ mem => (Ascending.mem_insert.mp mem).elim
    (fun same => Or.inr (same ▸ issued)) Or.inl

theorem unregister (sk : Sketch α) (c : ConstraintId) (ids : List EntityId) :
    sk.Retains (sk.unregister c ids) :=
  changeConstraints sk ids fun _ _ mem => Or.inl (List.mem_filter.mp mem).1

/-- An entity may go with its points. -/
theorem without {root : EntityId} {ids : List EntityId} (all : ∀ id, id ∈ ids ↔ id ∈ sk.subtree root) :
    sk.Retains (sk.without ids) := by
  refine ⟨fun families => families.without all,
    fun numbered e he => numbered e (List.mem_filter.mp he).1, Nat.le_refl _, Nat.le_refl _,
    fun id e' _ found => ⟨e', ?_, rfl⟩⟩
  rw [entity?_without] at found
  split at found
  next => simp at found
  next => exact found

/-- Giving a decoration back is not about entities. -/
theorem undecorate (c : Constraint) (sk : Sketch α) : sk.Retains (c.undecorate sk).2 := by
  rw [Constraint.undecorate_eq]
  exact of_entities rfl rfl (Nat.le_refl _)

/-- Whatever is drawn has new numbers, hence nothing is found otherwise under an old one. -/
theorem draw (sk : Sketch α) (figure : Figure α) : sk.Retains (sk.draw figure) := by
  obtain ⟨store, shape, eq⟩ := sk.draw_eq figure
  rw [eq]
  have same : sk.Families → { sk with store }.Families := fun families => families.of_entities rfl rfl
  refine ⟨fun families => (same families).enter shape, fun numbered e he c hc => ?_, ?_, Nat.le_refl _,
    fun id e' issued found => ⟨e', ?_, rfl⟩⟩
  · by_cases old : e ∈ sk.entities
    · exact numbered e old c hc
    · rw [(mem_entities_enter he old).2.1] at hc
      exact absurd hc List.not_mem_nil
  · show sk.entityCount ≤ sk.entityCount + shape.parts.length + 1
    omega
  · rcases { sk with store }.entity?_enter shape id with same | ⟨_, _, _, late, _⟩
    · exact same.symm.trans found
    · -- new entities have ids that were not given out
      exact absurd issued (Nat.not_le.mpr late)

theorem translate [Zero α] [Add α] {id : EntityId} {dx dy : α}
    (moved : sk.translate id dx dy = .ok sk') : sk.Retains sk' := by
  obtain ⟨shape, rfl⟩ := Session.exists_translate moved
  exact of_store rfl

end Retains

/-! ## What a constraint is created for -/

/-- The entities are there, as many as the kind relates, with as many parameters as it reads. -/
def Affords (sk : Sketch α) (kind : Kind) (ids : List EntityId) : Prop :=
  ids.length = kind.entityCount ∧ ∃ es, List.Forall₂ (fun id e => sk.entity? id = some e) ids es ∧
    (es.flatMap (·.shape.params)).length = kind.paramCount

/-- What a constraint could be created for depends on the entities only. -/
theorem Affords.of_entities (affords : sk.Affords kind ids) (same : sk'.entities = sk.entities) :
    sk'.Affords kind ids := by
  unfold Affords entity? at *
  rw [same]
  exact affords

/-- What is created could be created because the entities are there, and it is for these. -/
theorem affords_of_create (created : Constraint.create sk kind ids = .ok (c, sk')) :
    sk.Affords kind ids := by
  obtain ⟨es, found, fits, rfl, _⟩ := Constraint.create_ok created
  refine ⟨?_, es, ?_, fits⟩
  · unfold Constraint.create at created
    by_contra few
    rw [if_pos few] at created
    simp [throw, throwThe, MonadExceptOf.throw, bind, Except.bind] at created
  · refine (mapM_ok_iff.mp found).imp fun id e eq => ?_
    exact entity_ok_iff.mp eq

/-- **Where the entities are there, a constraint is created for them.** -/
theorem create_of_affords (affords : sk.Affords kind ids) :
    ∃ params : List Handle, params.length = kind.paramCount ∧
      Constraint.create sk kind ids =
        .ok ({ id := ⟨sk.constraintCount + 1⟩, kind, entities := ids, params },
          { sk with constraintCount := sk.constraintCount + 1 }) := by
  obtain ⟨count, es, found, fits⟩ := affords
  have collected : ids.mapM (sk.entity : EntityId → Except (Failure α) Entity) = .ok es :=
    mapM_ok_iff.mpr (found.imp fun id e eq => entity_ok_iff.mpr eq)
  refine ⟨_, fits, ?_⟩
  unfold Constraint.create
  rw [if_neg (by simpa using count), collected]
  simp only [bind, Except.bind]
  rw [if_neg (by simpa using fits)]
  rfl

/-- The constraint was created for entities of the sketch, some of which may be gone, and has their
parameters. -/
structure Traces (sk : Sketch α) (c : Constraint) : Prop where
  count : c.entities.length = c.kind.entityCount
  fits : c.Fits
  numbered : c.id.number ≤ sk.constraintCount
  issued : ∀ id ∈ c.entities, id.number ≤ sk.entityCount
  shapes : ∃ shapes : List Shape,
    List.Forall₂ (fun id shape => ∀ e, sk.entity? id = some e → e.shape = shape) c.entities shapes ∧
      c.params = shapes.flatMap (·.params)

namespace Traces

/-- Neither the space that hosts a constraint nor its decoration matters. -/
theorem redress (traces : sk.Traces c) (decoration : Option DecorationId) (space : Option Nat) :
    sk.Traces { c with decoration, space } :=
  ⟨traces.count, traces.fits, traces.numbered, traces.issued, traces.shapes⟩

/-- A trace outlives what the sketch goes through. -/
theorem retain (traces : sk.Traces c) (retains : sk.Retains sk') : sk'.Traces c := by
  obtain ⟨shapes, each, params⟩ := traces.shapes
  refine ⟨traces.count, traces.fits, Nat.le_trans traces.numbered retains.constraintCount,
    fun id mem => Nat.le_trans (traces.issued id mem) retains.entityCount, shapes, ?_, params⟩
  have issued := traces.issued
  clear params traces
  generalize c.entities = ids at each issued
  induction each with
  | nil => exact .nil
  | cons head _ ih =>
    obtain ⟨first, later⟩ := List.forall_mem_cons.mp issued
    refine .cons (fun e' found => ?_) (ih later)
    obtain ⟨e, found, same⟩ := retains.shapes _ e' first found
    rw [← same]
    exact head e found

/-- A constraint leaves a trace from its creation on. -/
theorem of_create (distinct : sk.Distinct)
    (created : Constraint.create sk kind ids = .ok (c, sk')) : sk'.Traces c := by
  obtain ⟨count, _⟩ := affords_of_create created
  obtain ⟨es, collected, fits, rfl, rfl⟩ := Constraint.create_ok created
  have found : List.Forall₂ (fun id e => sk.entity? id = some e) ids es :=
    (mapM_ok_iff.mp collected).imp fun id e eq => entity_ok_iff.mp eq
  refine ⟨count, fits, Nat.le_refl _, fun id mem => ?_, es.map (·.shape), ?_,
    by rw [List.flatMap_map]⟩
  · obtain ⟨e, there⟩ := exists_of_mem_forall₂ found mem
    obtain ⟨he, rfl⟩ := entity?_some there
    exact distinct.issued e he
  · rw [List.forall₂_map_right_iff]
    refine found.imp fun id e there e' there' => ?_
    have there' : sk.entity? id = some e' := there'
    rw [there] at there'
    rw [Option.some.inj there']

/-- **A constraint whose entities are there has no parameters but theirs.** -/
theorem owned (traces : sk.Traces c) (there : ∀ id ∈ c.entities, sk.contains id) {h : Handle}
    (mem : h ∈ c.params) : sk.Owned c h := by
  obtain ⟨shapes, each, params⟩ := traces.shapes
  rw [params] at mem
  obtain ⟨shape, listed, hh⟩ := List.mem_flatMap.mp mem
  obtain ⟨id, mem, same⟩ := Session.exists_of_forall₂ each listed
  obtain ⟨e, found⟩ := Option.isSome_iff_exists.mp (there id mem)
  obtain ⟨he, rfl⟩ := entity?_some found
  exact ⟨e, he, mem, same e found ▸ hh⟩

/-- A constraint has the parameters of each of its entities that is there. -/
theorem reads (traces : sk.Traces c) (distinct : sk.Distinct) {e : Entity} (he : e ∈ sk.entities)
    (listed : e.id ∈ c.entities) {h : Handle} (mem : h ∈ e.shape.params) : h ∈ c.params := by
  obtain ⟨shapes, each, params⟩ := traces.shapes
  obtain ⟨shape, among, same⟩ := Session.exists_of_forall₂ each.flip listed
  rw [params]
  exact List.mem_flatMap.mpr ⟨shape, among, same e (distinct.entity? he) ▸ mem⟩

end Traces

/-- The other sketch has an entity with the same sort of shape under the id of each entity. -/
def Redrawn (sk sk' : Sketch α) : Prop := ∀ id e, sk.entity? id = some e →
  ∃ e', sk'.entity? id = some e' ∧ e'.shape.name = e.shape.name

/-- **A constraint whose entities are there can be created again**, on any sketch that has them. -/
theorem Traces.affords (traces : sk.Traces c) (there : ∀ id ∈ c.entities, sk.contains id)
    (redrawn : sk.Redrawn sk') : sk'.Affords c.kind c.entities := by
  obtain ⟨shapes, each, params⟩ := traces.shapes
  have fits : c.params.length = c.kind.paramCount := traces.fits
  refine ⟨traces.count, ?_⟩
  rw [← fits, params]
  clear fits params traces
  generalize c.entities = ids at each there
  induction each with
  | nil => exact ⟨[], .nil, rfl⟩
  | cons head _ ih =>
    obtain ⟨first, later⟩ := List.forall_mem_cons.mp there
    obtain ⟨es, found, length⟩ := ih later
    obtain ⟨e, was⟩ := Option.isSome_iff_exists.mp first
    obtain ⟨e', is, sort⟩ := redrawn _ e was
    refine ⟨e' :: es, .cons is found, ?_⟩
    rw [List.flatMap_cons, List.flatMap_cons, List.length_append, List.length_append, length,
      Shape.length_params_of_name sort, head e was]

end Sketch

end SketchSolver
