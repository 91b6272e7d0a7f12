import SketchSolver.Proofs.Sketch.Ledger

/-!
# Families of entities

A shape is entered together with its points, which are entities of their own. The shape
and its points are a family: they name each other as parent and children, and what a
point is made of belongs to the shape as well. This is about one sketch, not about what
happens to it; that operations keep families in order is left to `Sketch.Retains`.

`Families` says three things about all entities at once. What an entity names has a
number that was given out (`Settles`), so what is entered later cannot be mistaken for
it. Any two entities agree about whether one is a point of the other (`Entity.Kin`), and
they do so from either side: the list of points of the shape, and the parent of the
point. And no point is without its shape, because a shape goes only together with its
points.

From this follows what taking a root off means: all that goes is its family, as far as
it is there (`Families.mem_subtree`). The list of points of a shape alone would not tell
it, for it still names a point that was taken off on its own.

Nothing is said about parameters of different families. A shape may be entered on
parameters that others have already, so two roots may share some. What a constraint
reads therefore does not tell which family it is about; only the entities that it names
do.

Two ways of changing a sketch matter. Fewer entities are left, or others are registered
on them: then families stay in order as long as no shape goes before its points
(`Families.of_fewer`). Or a shape is entered: then all that is new is one family, it
names nothing old, and nothing old names it (`Families.enter`).
-/

namespace SketchSolver

variable {α : Type}

/-- What a point of a shape is made of, the shape is made of as well. -/
theorem Shape.mem_params_of_parts {shape part : Shape} (mem : part ∈ shape.parts) {h : Handle}
    (hh : h ∈ part.params) : h ∈ shape.params := by
  have inPoints : ∀ p ∈ shape.points, ∀ k ∈ p.params, k ∈ shape.params := by
    intro p hp k hk
    cases shape with
    | point q => exact List.mem_flatMap.mpr ⟨p, hp, hk⟩
    | segment a b => exact List.mem_flatMap.mpr ⟨p, hp, hk⟩
    | circle c r =>
      rw [List.mem_singleton.mp hp] at hk
      exact List.mem_append_left _ hk
    | arc a b c => exact List.mem_flatMap.mpr ⟨p, hp, hk⟩
  unfold parts at mem
  split at mem
  next => exact absurd mem List.not_mem_nil
  next =>
    obtain ⟨p, hp, rfl⟩ := List.mem_map.mp mem
    obtain ⟨q, hq, hk⟩ := List.mem_flatMap.mp hh
    rw [List.mem_singleton.mp hq] at hk
    exact inPoints p hp h hk

/-! ## Families -/

/-- The root of the family of an entity: the entity that it is a point of, or itself. -/
def Entity.root (e : Entity) : EntityId := e.parent.getD e.id

/-- A point has the shape that it is a point of as its root. -/
theorem Entity.root_of_parent {e : Entity} {id : EntityId} (parent : e.parent = some id) :
    e.root = id := by
  unfold root
  rw [parent]
  rfl

theorem Entity.root_of_none {e : Entity} (parent : e.parent = none) : e.root = e.id := by
  unfold root
  rw [parent]
  rfl

/-- Two entities agree about whether the second is a point of the first. A point has none but the
parameters of its shape, and no points itself. -/
structure Entity.Kin (e d : Entity) : Prop where
  child : d.id ∈ e.children → d.parent = some e.id
  parent : d.parent = some e.id →
    d.id ∈ e.children ∧ e.parent = none ∧ ∀ h ∈ d.shape.params, h ∈ e.shape.params

/-- Entities that do not name each other agree that they are not of one family. -/
theorem Entity.Kin.of_strangers {e d : Entity} (child : d.id ∉ e.children)
    (parent : d.parent ≠ some e.id) : e.Kin d :=
  ⟨fun mem => absurd mem child, fun is => absurd is parent⟩

namespace Sketch

variable {sk sk' : Sketch α} {e d : Entity} {id : EntityId} {shape : Shape}

/-- The entities that an entity names have numbers that were given out. -/
structure Settles (sk : Sketch α) (e : Entity) : Prop where
  children : ∀ id ∈ e.children, id.number ≤ sk.entityCount
  parent : ∀ id, e.parent = some id → id.number ≤ sk.entityCount

/-- All entities have ids of their own, are settled, and are kin to each other. A point is there only
together with its shape. -/
structure Families (sk : Sketch α) : Prop extends Distinct sk where
  settled : ∀ e ∈ sk.entities, sk.Settles e
  kin : ∀ e ∈ sk.entities, ∀ d ∈ sk.entities, e.Kin d
  rooted : ∀ e ∈ sk.entities, ∀ id, e.parent = some id → sk.contains id

/-- An id is there if some entity has it. -/
theorem contains_iff : sk.contains id ↔ ∃ e ∈ sk.entities, e.id = id := by
  unfold contains entity?
  simp

namespace Families

theorem empty (name : String) : ({ name } : Sketch α).Families :=
  ⟨⟨List.nodup_nil, fun _ he => absurd he List.not_mem_nil⟩,
    fun _ he => absurd he List.not_mem_nil, fun _ he => absurd he List.not_mem_nil,
    fun _ he => absurd he List.not_mem_nil⟩

/-- Which entities are left does not matter, nor what is registered on them, as long as the shape of
each point that is left is there. -/
theorem of_fewer (families : sk.Families) (distinct : sk'.Distinct)
    (each : ∀ e ∈ sk'.entities, ∃ constraints, { e with constraints } ∈ sk.entities)
    (count : sk.entityCount ≤ sk'.entityCount)
    (parents : ∀ e ∈ sk'.entities, ∀ id, e.parent = some id → sk.contains id → sk'.contains id) :
    sk'.Families := by
  refine ⟨distinct, fun e he => ?_, fun e he d hd => ?_, fun e he id is => ?_⟩
  · obtain ⟨_, was⟩ := each e he
    have settled := families.settled _ was
    exact ⟨fun id mem => Nat.le_trans (settled.children id mem) count,
      fun id is => Nat.le_trans (settled.parent id is) count⟩
  · obtain ⟨_, was⟩ := each e he
    obtain ⟨_, was'⟩ := each d hd
    have kin := families.kin _ was _ was'
    exact ⟨kin.child, kin.parent⟩
  · obtain ⟨_, was⟩ := each e he
    exact parents e he id is (families.rooted _ was id is)

/-- Only the entities matter, and which numbers were given out. -/
theorem of_entities (families : sk.Families) (entities : sk'.entities = sk.entities)
    (count : sk'.entityCount = sk.entityCount) : sk'.Families := by
  have distinct : sk'.Distinct := by
    refine ⟨?_, ?_⟩
    · rw [entities]
      exact families.nodup
    · rw [entities, count]
      exact families.issued
  refine families.of_fewer distinct (fun e he => ⟨e.constraints, ?_⟩) (Nat.le_of_eq count.symm)
    fun e he id is there => ?_
  · rw [← entities]
    exact he
  · rw [contains_iff, entities, ← contains_iff]
    exact there

/-- What is in the subtree of a root is its family. -/
theorem mem_subtree (families : sk.Families) (he : e ∈ sk.entities) (root : e.parent = none) :
    id ∈ sk.subtree e.id ↔ ∃ d ∈ sk.entities, d.id = id ∧ d.root = e.id := by
  rw [Sketch.mem_subtree]
  constructor
  · rintro ⟨e', found, below⟩
    rw [families.entity? he] at found
    obtain rfl := Option.some.inj found
    rcases below with ⟨child, there⟩ | rfl
    · obtain ⟨d, hd, rfl⟩ := contains_iff.mp there
      exact ⟨d, hd, rfl, Entity.root_of_parent ((families.kin e he d hd).child child)⟩
    · exact ⟨e, he, rfl, Entity.root_of_none root⟩
  · rintro ⟨d, hd, rfl, same⟩
    refine ⟨e, families.entity? he, ?_⟩
    cases parent : d.parent with
    | none =>
      rw [Entity.root_of_none parent] at same
      exact Or.inr same
    | some p =>
      rw [Entity.root_of_parent parent] at same
      have child := (families.kin e he d hd).parent (same ▸ parent)
      exact Or.inl ⟨child.1, contains_iff.mpr ⟨d, hd, rfl⟩⟩

/-- Every entity is of the family of some root, which has all parameters that it has. -/
theorem exists_root (families : sk.Families) (he : e ∈ sk.entities) :
    ∃ r ∈ sk.roots, r.id = e.root ∧ ∀ h ∈ e.shape.params, h ∈ r.shape.params := by
  unfold roots
  cases parent : e.parent with
  | none =>
    refine ⟨e, List.mem_filter.mpr ⟨he, ?_⟩, (Entity.root_of_none parent).symm, fun _ read => read⟩
    rw [parent]
    rfl
  | some id =>
    obtain ⟨r, hr, rfl⟩ := contains_iff.mp (families.rooted e he id parent)
    obtain ⟨_, none, reads⟩ := (families.kin r hr e he).parent parent
    refine ⟨r, List.mem_filter.mpr ⟨hr, ?_⟩, (Entity.root_of_parent parent).symm, reads⟩
    rw [none]
    rfl

/-- **An entity may go with its points**, be it a root or not: no point is left without its shape. -/
theorem without {root : EntityId} {ids : List EntityId} (families : sk.Families)
    (all : ∀ id, id ∈ ids ↔ id ∈ sk.subtree root) : (sk.without ids).Families := by
  refine families.of_fewer families.toDistinct.without
    (fun e he => ⟨e.constraints, (List.mem_filter.mp he).1⟩) (Nat.le_refl _)
    fun e he id is there => ?_
  obtain ⟨old, left⟩ := List.mem_filter.mp he
  have left : e.id ∉ sk.subtree root := fun mem => of_decide_eq_true left ((all _).mpr mem)
  obtain ⟨d, hd, rfl⟩ := contains_iff.mp there
  have point := (families.kin d hd e old).parent is
  have stays : d.id ∉ sk.subtree root := by
    intro gone
    obtain ⟨r, found, ⟨child, _⟩ | rfl⟩ := Sketch.mem_subtree.mp gone
    · -- the shape would be a point itself
      have parent := (families.kin r (entity?_some found).1 d hd).child child
      rw [point.2.1] at parent
      cases parent
    · rw [families.entity? hd] at found
      obtain rfl := Option.some.inj found
      exact left (Sketch.mem_subtree.mpr ⟨d, families.entity? hd,
        Or.inl ⟨point.1, contains_iff.mpr ⟨e, old, rfl⟩⟩⟩)
  exact contains_iff.mpr ⟨d, List.mem_filter.mpr
    ⟨hd, decide_eq_true fun mem => stays ((all _).mp mem)⟩, rfl⟩

end Families

/-! ## Entering -/

/-- A new entity is the shape that was entered, which names its points, or one of these. -/
theorem family_of_enter (mem : e ∈ (sk.enter shape).2.entities) (new : e ∉ sk.entities) :
    (e.id = (sk.enter shape).1 ∧ e.shape = shape ∧ e.parent = none ∧ ∀ id, id ∈ e.children ↔
      sk.entityCount < id.number ∧ id.number < (sk.enter shape).1.number) ∨
    (e.id.number < (sk.enter shape).1.number ∧ e.shape ∈ shape.parts ∧
      e.parent = some (sk.enter shape).1 ∧ e.children = []) := by
  unfold enter at mem ⊢
  simp only at mem ⊢
  rcases List.mem_append.mp mem with mem | last
  · obtain ⟨i, bound, rfl⟩ := List.mem_mapIdx.mp ((List.mem_append.mp mem).resolve_left new)
    exact Or.inr ⟨by simp only; omega, List.getElem_mem bound, rfl, rfl⟩
  · obtain rfl := List.mem_singleton.mp last
    refine Or.inl ⟨rfl, rfl, rfl, fun id => ?_⟩
    simp only [List.mem_map, List.mem_mapIdx]
    constructor
    · rintro ⟨_, ⟨i, bound, rfl⟩, rfl⟩
      simp only
      omega
    · rintro ⟨above, below⟩
      refine ⟨_, ⟨id.number - sk.entityCount - 1, by omega, rfl⟩, ?_⟩
      obtain ⟨number⟩ := id
      simp only [EntityId.mk.injEq] at above below ⊢
      omega

/-- What is new has a number above those given out, and names only such numbers. -/
theorem fresh_of_enter (mem : e ∈ (sk.enter shape).2.entities) (new : e ∉ sk.entities) :
    sk.entityCount < e.id.number ∧ (∀ id ∈ e.children, sk.entityCount < id.number) ∧
      ∀ id, e.parent = some id → sk.entityCount < id.number := by
  have root : sk.entityCount < (sk.enter shape).1.number := by
    show sk.entityCount < sk.entityCount + shape.parts.length + 1
    omega
  have above := (mem_entities_enter mem new).1
  rcases family_of_enter mem new with ⟨_, _, none, points⟩ | ⟨_, _, some, none⟩
  · refine ⟨above, fun id mem => ((points id).mp mem).1, fun id is => ?_⟩
    rw [none] at is
    cases is
  · refine ⟨above, fun id mem => ?_, fun id is => ?_⟩
    · rw [none] at mem
      exact absurd mem List.not_mem_nil
    · rw [some] at is
      exact Option.some.inj is ▸ root

/-- All that is new is one family. -/
theorem kin_of_enter (he : e ∈ (sk.enter shape).2.entities) (newe : e ∉ sk.entities)
    (hd : d ∈ (sk.enter shape).2.entities) (newd : d ∉ sk.entities) : e.Kin d := by
  have above := (fresh_of_enter hd newd).1
  rcases family_of_enter he newe with ⟨is, whole, none, points⟩ | ⟨below, _, some, none⟩ <;>
    rcases family_of_enter hd newd with ⟨is', _, none', _⟩ | ⟨below', part, some', _⟩
  · -- both are the shape
    refine ⟨fun mem => ?_, fun parent => ?_⟩
    · have := ((points d.id).mp mem).2
      rw [is'] at this
      omega
    · rw [none'] at parent
      cases parent
  · refine ⟨fun _ => by rw [some', is], fun _ => ⟨(points d.id).mpr ⟨above, below'⟩, none,
      fun h read => ?_⟩⟩
    rw [whole]
    exact Shape.mem_params_of_parts part read
  · refine ⟨fun mem => ?_, fun parent => ?_⟩
    · rw [none] at mem
      exact absurd mem List.not_mem_nil
    · rw [none'] at parent
      cases parent
  · -- both are points of it
    refine ⟨fun mem => ?_, fun parent => ?_⟩
    · rw [none] at mem
      exact absurd mem List.not_mem_nil
    · rw [some'] at parent
      rw [← Option.some.inj parent] at below
      omega

/-- The shape that was entered is there. -/
theorem contains_enter (sk : Sketch α) (shape : Shape) :
    (sk.enter shape).2.contains (sk.enter shape).1 :=
  contains_iff.mpr ⟨_, List.mem_append_right _ (List.mem_singleton_self _), rfl⟩

/-- **A shape that is entered is a family of its own**, also when it shares parameters. -/
theorem Families.enter (families : sk.Families) (shape : Shape) :
    (sk.enter shape).2.Families := by
  have count : sk.entityCount ≤ (sk.enter shape).2.entityCount := by
    show sk.entityCount ≤ sk.entityCount + shape.parts.length + 1
    omega
  refine ⟨families.toDistinct.enter shape, fun e he => ?_, fun e he d hd => ?_,
    fun e he id is => ?_⟩
  · by_cases old : e ∈ sk.entities
    · have settled := families.settled e old
      exact ⟨fun id mem => Nat.le_trans (settled.children id mem) count,
        fun id is => Nat.le_trans (settled.parent id is) count⟩
    · refine ⟨(mem_entities_enter he old).2.2.1, fun id is => ?_⟩
      rcases family_of_enter he old with ⟨_, _, none, _⟩ | ⟨_, _, some, _⟩
      · rw [none] at is
        cases is
      · rw [some] at is
        rw [← Option.some.inj is]
        exact Nat.le_refl _
  -- an old entity and a new one are strangers: neither names the other's number
  · by_cases old : e ∈ sk.entities <;> by_cases old' : d ∈ sk.entities
    · exact families.kin e old d old'
    · obtain ⟨above, _, parents⟩ := fresh_of_enter hd old'
      refine .of_strangers (fun mem => ?_) fun is => ?_
      · exact Nat.not_lt.mpr ((families.settled e old).children d.id mem) above
      · exact Nat.not_lt.mpr (families.issued e old) (parents e.id is)
    · obtain ⟨above, children, _⟩ := fresh_of_enter he old
      refine .of_strangers (fun mem => ?_) fun is => ?_
      · exact Nat.not_lt.mpr (families.issued d old') (children d.id mem)
      · exact Nat.not_lt.mpr ((families.settled d old').parent e.id is) above
    · exact kin_of_enter he old hd old'
  · by_cases old : e ∈ sk.entities
    · obtain ⟨d, hd, same⟩ := contains_iff.mp (families.rooted e old id is)
      obtain ⟨new, entities, _⟩ := entities_enter sk shape
      refine contains_iff.mpr ⟨d, ?_, same⟩
      rw [entities]
      exact List.mem_append_left _ hd
    · rcases family_of_enter he old with ⟨_, _, none, _⟩ | ⟨_, _, some, _⟩
      · rw [none] at is
        cases is
      · rw [some] at is
        rw [← Option.some.inj is]
        exact contains_enter sk shape

end Sketch

end SketchSolver
