import SketchSolver.Proofs.Session.Operations
import SketchSolver.Proofs.Sketch.Accounts

/-!
# The books of a sketch

A sketch keeps books about constraints that it does not own: which of them are registered
on an entity, and which decorations are in use. A `Ledger` says that the books are right,
given the constraints that spaces host and those that others hold. Those others are the
callers: a constraint that was created and not added yet, or that was given back by a
removal. Nothing is registered for it, but its decoration stays in use.

Constraints go back and forth between the two lists. Each way has one lemma: creating
(`Ledger.create`), decorating (`decorate`), hosting (`host`), releasing (`release`),
refusing (`reject`) and dropping (`drop`) a constraint; and there is one for drawing and one
for taking entities off. What a session does to its sketch is a sequence of these, so the
modules about operations cite them and never look at the books themselves.

The part about registering, `Registers`, is an equivalence: a constraint is registered on an
entity just when it is hosted and has that entity among its own, or among the families of
its own. One direction is what removing an entity relies on, to find all constraints that go
with it; the other says that nothing stale is left over. Registering goes to the entity and
its points (`Sketch.subtree`), so it depends on which points are there. `Registers.congr`
holds while no family changes, and `Registers.without` is the case in which one does:
entities may go if no hosted constraint has one of them in the families of its own.

`Proper` is what a new entity needs in order not to be mistaken for an old one. Constraints
know only entities with numbers below the counter, a new entity has a number above it.
-/

namespace SketchSolver

variable {α : Type}

namespace Sketch

variable {sk sk' : Sketch α} {c : Constraint} {cs ds : List Constraint} {id root : EntityId}
variable {hosted held : List Constraint}

/-! ## Entities and their points -/

/-- A family is the entity itself and what is there of its points. -/
theorem mem_subtree {e : EntityId} : e ∈ sk.subtree root ↔
    ∃ entity, sk.entity? root = some entity ∧ (e ∈ entity.children ∧ sk.contains e ∨ e = root) := by
  unfold subtree
  cases sk.entity? root with
  | none => simp
  | some entity => simp

/-- Whatever belongs to a family is there. -/
theorem contains_of_mem_subtree (mem : id ∈ sk.subtree root) : sk.contains id := by
  obtain ⟨e, found, ⟨_, there⟩ | rfl⟩ := mem_subtree.mp mem
  · exact there
  · unfold contains
    rw [found]
    rfl

/-- Only what is registered on the families of the given entities changes. -/
theorem constraintsOf_changeConstraints (sk : Sketch α) (ids : List EntityId)
    (change : List ConstraintId → List ConstraintId) (id : EntityId) :
    (sk.changeConstraints ids change).constraintsOf id =
      if id ∈ ids.flatMap sk.subtree then change (sk.constraintsOf id) else sk.constraintsOf id := by
  unfold constraintsOf
  rw [entity?_changeConstraints]
  cases found : sk.entity? id with
  | none =>
    -- what is not there is in no subtree
    rw [if_neg fun mem => ?_]
    · rfl
    · obtain ⟨root, _, below⟩ := List.mem_flatMap.mp mem
      have there := contains_of_mem_subtree below
      unfold contains at there
      rw [found] at there
      simp at there
  | some e =>
    have same : e.id = id := by
      unfold entity? at found
      simpa using List.find?_some found
    rw [Option.map_some, same]
    by_cases covered : id ∈ ids.flatMap sk.subtree
    · rw [if_pos covered, if_pos covered]
    · rw [if_neg covered, if_neg covered]

/-- The entities taken off are gone, the others are found as before. -/
theorem entity?_without (sk : Sketch α) (ids : List EntityId) (id : EntityId) :
    (sk.without ids).entity? id = if id ∈ ids then none else sk.entity? id := by
  unfold entity? without
  rw [List.find?_filter]
  split
  next gone =>
    refine List.find?_eq_none.mpr fun e _ => ?_
    simp only [decide_eq_true_eq, not_and]
    exact fun kept same => kept (same ▸ gone)
  next kept =>
    refine congrArg (fun p => List.find? p sk.entities) (funext fun e => ?_)
    by_cases same : e.id = id
    · simp [same, kept]
    · simp [same]

/-! ## Registered constraints -/

/-- A constraint is registered on an entity just when it is hosted and one of its entities is that one
or has it as a point. -/
def Registers (sk : Sketch α) (hosted : List Constraint) : Prop :=
  ∀ id c, c ∈ sk.constraintsOf id ↔ ∃ d ∈ hosted, d.id = c ∧ id ∈ d.entities.flatMap sk.subtree

namespace Registers

theorem perm (registers : sk.Registers cs) (same : ds.Perm cs) : sk.Registers ds := by
  intro id c
  rw [registers id c]
  exact exists_congr fun d => and_congr_left' same.symm.mem_iff

/-- Where the sketch answers alike, the same constraints are registered. -/
theorem congr (registers : sk.Registers cs) (constraintsOf : sk'.constraintsOf = sk.constraintsOf)
    (subtree : ∀ c ∈ cs, ∀ root ∈ c.entities, sk'.subtree root = sk.subtree root) :
    sk'.Registers cs := by
  intro id c
  rw [constraintsOf, registers id c]
  refine exists_congr fun d => and_congr_right fun hd => and_congr_right fun _ => ?_
  rw [List.mem_flatMap, List.mem_flatMap]
  exact exists_congr fun root => and_congr_right fun mem => by rw [subtree d hd root mem]

/-- Registering a constraint is right when it is hosted from now on. -/
theorem register (registers : sk.Registers cs) (c : Constraint) (space : Option Nat) :
    (sk.register c.id c.entities).Registers ({ c with space } :: cs) := by
  intro id d
  have subtree : (sk.register c.id c.entities).subtree = sk.subtree :=
    funext fun root => subtree_changeConstraints sk c.entities _ root
  rw [subtree, List.exists_mem_cons_iff, ← registers id d]
  unfold Sketch.register
  rw [constraintsOf_changeConstraints]
  by_cases covered : id ∈ c.entities.flatMap sk.subtree
  · rw [if_pos covered, Ascending.mem_insert]
    exact or_congr_left ⟨fun eq => ⟨eq.symm, covered⟩, fun both => both.1.symm⟩
  · rw [if_neg covered]
    exact ⟨Or.inr, fun h => h.resolve_left fun both => covered both.2⟩

/-- A constraint that is hosted no longer may be unregistered if no other one has its id. -/
theorem unregister (registers : sk.Registers (c :: cs)) (others : ∀ d ∈ cs, d.id ≠ c.id) :
    (sk.unregister c.id c.entities).Registers cs := by
  intro id d
  have subtree : (sk.unregister c.id c.entities).subtree = sk.subtree :=
    funext fun root => subtree_changeConstraints sk c.entities _ root
  have before := registers id d
  rw [List.exists_mem_cons_iff] at before
  have other : (∃ e ∈ cs, e.id = d ∧ id ∈ e.entities.flatMap sk.subtree) → d ≠ c.id := by
    rintro ⟨e, he, rfl, _⟩
    exact others e he
  rw [subtree]
  unfold Sketch.unregister
  rw [constraintsOf_changeConstraints]
  by_cases covered : id ∈ c.entities.flatMap sk.subtree
  · rw [if_pos covered, List.mem_filter, before, decide_eq_true_eq]
    constructor
    · rintro ⟨⟨same, _⟩ | there, ne⟩
      · exact absurd same.symm ne
      · exact there
    · exact fun there => ⟨Or.inr there, other there⟩
  · rw [if_neg covered, before]
    exact ⟨fun h => h.resolve_left fun both => covered both.2, Or.inr⟩

/-- Taking a constraint off its entities that was never registered does nothing. -/
theorem unregister_eq_self (registers : sk.Registers cs) (distinct : sk.Distinct)
    (unhosted : ∀ d ∈ cs, d.id ≠ c.id) : sk.unregister c.id c.entities = sk := by
  refine Sketch.unregister_eq_self fun e he registered => ?_
  have on : c.id ∈ sk.constraintsOf e.id := by
    unfold constraintsOf
    rw [distinct.entity? he]
    exact registered
  obtain ⟨d, hd, same, _⟩ := (registers e.id c.id).mp on
  exact unhosted d hd same

/-- Entities may go when no hosted constraint is about them. -/
theorem without {ids : List EntityId} (registers : sk.Registers cs)
    (free : ∀ d ∈ cs, ∀ id ∈ ids, id ∉ d.entities.flatMap sk.subtree) :
    (sk.without ids).Registers cs := by
  have contains : ∀ id, (sk.without ids).contains id ↔ sk.contains id ∧ id ∉ ids := by
    intro id
    unfold Sketch.contains
    rw [entity?_without]
    split
    next gone => simp [gone]
    next kept => simp [kept]
  intro id c
  -- the family of an entity may be smaller now, but not for an entity of a hosted constraint
  have covered : ∀ d ∈ cs, (id ∈ d.entities.flatMap (sk.without ids).subtree ↔
      id ∈ d.entities.flatMap sk.subtree) := by
    intro d hd
    rw [List.mem_flatMap, List.mem_flatMap]
    refine exists_congr fun root => and_congr_right fun mem => ?_
    have above : ∀ id ∈ sk.subtree root, id ∉ ids := fun id below gone =>
      free d hd id gone (List.mem_flatMap.mpr ⟨root, mem, below⟩)
    rw [mem_subtree, mem_subtree, entity?_without]
    by_cases gone : root ∈ ids
    · -- an entity that goes was not there, or it would be in its own subtree
      have absent : sk.entity? root = none := by
        refine Option.eq_none_iff_forall_ne_some.mpr fun e found => ?_
        exact above root (mem_subtree.mpr ⟨e, found, Or.inr rfl⟩) gone
      simp [absent, gone]
    · rw [if_neg gone]
      refine exists_congr fun e => and_congr_right fun found => or_congr_left ?_
      refine and_congr_right fun child => (contains id).trans (and_iff_left_of_imp fun there => ?_)
      exact above id (mem_subtree.mpr ⟨e, found, Or.inl ⟨child, there⟩⟩)
  have same : c ∈ (sk.without ids).constraintsOf id ↔ c ∈ sk.constraintsOf id := by
    by_cases gone : id ∈ ids
    · refine iff_of_false (fun on => ?_) fun on => ?_
      · unfold constraintsOf at on
        rw [entity?_without, if_pos gone] at on
        exact List.not_mem_nil on
      · obtain ⟨d, hd, _, below⟩ := (registers id c).mp on
        exact free d hd id gone below
    · unfold constraintsOf
      rw [entity?_without, if_neg gone]
  rw [same, registers id c]
  exact exists_congr fun d => and_congr_right fun hd => and_congr_right fun _ => (covered d hd).symm

end Registers

/-! ## Drawing and taking off -/

/-- Entities have ids of their own, and their points had one too. -/
structure Proper (sk : Sketch α) : Prop extends Distinct sk where
  children : ∀ e ∈ sk.entities, ∀ id ∈ e.children, id.number ≤ sk.entityCount

/-- What is new after a shape was entered. -/
theorem mem_entities_enter {e : Entity} {shape : Shape}
    (mem : e ∈ (sk.enter shape).2.entities) (new : e ∉ sk.entities) :
    sk.entityCount < e.id.number ∧ e.constraints = [] ∧
      (∀ id ∈ e.children, id.number ≤ (sk.enter shape).2.entityCount) ∧
      (e.shape = shape ∨ e.shape ∈ shape.parts) := by
  unfold enter at mem ⊢
  simp only at mem ⊢
  rcases List.mem_append.mp mem with mem | last
  · obtain ⟨i, bound, rfl⟩ := List.mem_mapIdx.mp ((List.mem_append.mp mem).resolve_left new)
    exact ⟨by simp only; omega, rfl, fun id child => absurd child List.not_mem_nil,
      Or.inr (List.getElem_mem bound)⟩
  · obtain rfl := List.mem_singleton.mp last
    refine ⟨by simp only; omega, rfl, fun id child => ?_, Or.inl rfl⟩
    obtain ⟨_, part, rfl⟩ := List.mem_map.mp child
    obtain ⟨i, bound, rfl⟩ := List.mem_mapIdx.mp part
    simp only
    omega

/-- An entity that was not there before has an id that was not given out, and nothing registered. -/
theorem entity?_enter (sk : Sketch α) (shape : Shape) (id : EntityId) :
    (sk.enter shape).2.entity? id = sk.entity? id ∨ sk.entity? id = none ∧
      ∃ e, (sk.enter shape).2.entity? id = some e ∧ sk.entityCount < id.number ∧
        e.constraints = [] := by
  obtain ⟨new, eq, _⟩ := entities_enter sk shape
  have enters : ∀ e ∈ new, e ∈ (sk.enter shape).2.entities := fun e he =>
    eq ▸ List.mem_append_right _ he
  unfold entity? at *
  rw [eq, List.find?_append]
  cases old : sk.entities.find? fun e => decide (e.id = id) with
  | some e => exact Or.inl rfl
  | none =>
    cases found : new.find? fun e => decide (e.id = id) with
    | none => exact Or.inl rfl
    | some e =>
      have same : e.id = id := by simpa using List.find?_some found
      have late : e ∉ sk.entities := fun he => by
        have := List.find?_eq_none.mp old e he
        simp [same] at this
      obtain ⟨above, nothing, _⟩ :=
        mem_entities_enter (enters e (List.mem_of_find?_eq_some found)) late
      exact Or.inr ⟨rfl, e, rfl, same ▸ above, nothing⟩

/-- A new entity has nothing registered on it, rightly: no hosted constraint has its number. -/
theorem Registers.enter {shape : Shape} (registers : sk.Registers cs) (proper : sk.Proper)
    (known : ∀ c ∈ cs, sk.Knows c) : (sk.enter shape).2.Registers cs := by
  -- constraints know old numbers only, and what is found under these is what was found before
  have entity? : ∀ id : EntityId, id.number ≤ sk.entityCount →
      (sk.enter shape).2.entity? id = sk.entity? id := by
    intro id issued
    rcases sk.entity?_enter shape id with same | ⟨_, _, _, above, _⟩
    · exact same
    · omega
  refine registers.congr (funext fun id => ?_) fun c hc root mem => ?_
  · unfold constraintsOf
    rcases sk.entity?_enter shape id with same | ⟨absent, e, found, _, nothing⟩
    · rw [same]
    · rw [absent, found]
      exact nothing
  · unfold subtree
    rw [entity? root ((known c hc).entities root mem)]
    cases found : sk.entity? root with
    | none => rfl
    | some e =>
      simp only
      refine congrArg (· ++ [root]) (List.filter_congr fun child below => ?_)
      unfold contains
      rw [entity? child]
      exact proper.children e (List.mem_of_find?_eq_some found) child below

/-- What is entered gets a new number, as its points do. -/
theorem Proper.enter (proper : sk.Proper) (shape : Shape) : (sk.enter shape).2.Proper := by
  refine ⟨proper.toDistinct.enter shape, fun e he => ?_⟩
  by_cases old : e ∈ sk.entities
  · intro id child
    have := proper.children e old id child
    show id.number ≤ sk.entityCount + shape.parts.length + 1
    omega
  · exact (mem_entities_enter he old).2.2.1

/-- Ids are as they were, whatever is registered. -/
theorem Proper.changeConstraints {ids : List EntityId} (proper : sk.Proper)
    (change : List ConstraintId → List ConstraintId) : (sk.changeConstraints ids change).Proper := by
  refine ⟨proper.toDistinct.changeConstraints change, fun e he => ?_⟩
  obtain ⟨e, old, rfl⟩ := List.mem_map.mp he
  split
  next => exact proper.children e old
  next => exact proper.children e old

/-- Fewer entities still have ids of their own. -/
theorem Proper.without (proper : sk.Proper) (ids : List EntityId) : (sk.without ids).Proper :=
  ⟨proper.toDistinct.without, fun e he => proper.children e (List.mem_filter.mp he).1⟩

/-- Only the entities and their counter matter. -/
theorem Proper.of_entities (proper : sk.Proper) (entities : sk'.entities = sk.entities)
    (entityCount : sk'.entityCount = sk.entityCount) : sk'.Proper := by
  refine ⟨⟨?_, ?_⟩, ?_⟩
  · rw [entities]
    exact proper.nodup
  · rw [entities, entityCount]
    exact proper.issued
  · rw [entities, entityCount]
    exact proper.children

/-- The constraint that is created on a proper sketch is known to it. -/
theorem Proper.knows_of_create {kind : Kind} {ids : List EntityId} (proper : sk.Proper)
    (created : Constraint.create sk kind ids = .ok (c, sk')) : sk'.Knows c := by
  obtain ⟨es, found, fits, rfl, rfl⟩ := Constraint.create_ok created
  obtain ⟨same, drawn⟩ := of_mapM_entity found
  refine ⟨fits, fun id mem => ?_, Nat.le_refl _⟩
  simp only at mem
  rw [← same] at mem
  obtain ⟨e, he, rfl⟩ := List.mem_map.mp mem
  exact proper.issued e (drawn e he)

/-! ## The ledger -/

/-- The books of the sketch are right about the constraints that are hosted and those that are not. -/
structure Ledger (sk : Sketch α) (hosted held : List Constraint) : Prop where
  proper : sk.Proper
  accounts : sk.Accounts (hosted ++ held)
  registers : sk.Registers hosted

namespace Ledger

theorem perm {hosted' held' : List Constraint} (ledger : sk.Ledger hosted held)
    (same : hosted'.Perm hosted) (same' : held'.Perm held) : sk.Ledger hosted' held' :=
  ⟨ledger.proper, ledger.accounts.perm (same.append same'), ledger.registers.perm same⟩

/-- No other constraint has the id of one that is held. -/
theorem unhosted (ledger : sk.Ledger hosted (c :: held)) : ∀ d ∈ hosted, d.id ≠ c.id := by
  intro d hd same
  have ids := ledger.accounts.ids
  rw [List.map_append, List.map_cons] at ids
  refine (List.nodup_append.mp ids).2.2 d.id (List.mem_map_of_mem hd) c.id List.mem_cons_self same

theorem of_store (ledger : sk.Ledger hosted held) (same : sk' = { sk with store := sk'.store }) :
    sk'.Ledger hosted held := by
  rw [same]
  exact ⟨ledger.proper.of_entities rfl rfl,
    ledger.accounts.of_counts (Nat.le_refl _) (Nat.le_refl _) rfl rfl, ledger.registers⟩

/-- Drawing touches no book, whatever it is made of. -/
theorem draw (ledger : sk.Ledger hosted held) (figure : Figure α) :
    (sk.draw figure).Ledger hosted held := by
  obtain ⟨store, shape, eq⟩ := sk.draw_eq figure
  have same : { sk with store }.Ledger hosted held := ledger.of_store rfl
  have known : ∀ c ∈ hosted, { sk with store }.Knows c := fun c hc =>
    same.accounts.known c (List.mem_append_left _ hc)
  have count : sk.entityCount ≤ ({ sk with store }.enter shape).2.entityCount := by
    show sk.entityCount ≤ sk.entityCount + shape.parts.length + 1
    omega
  rw [eq]
  exact ⟨same.proper.enter shape, same.accounts.of_counts count (Nat.le_refl _) rfl rfl,
    same.registers.enter same.proper known⟩

/-- A new constraint is held by its creator, without decoration, and registered nowhere. -/
theorem create {kind : Kind} {ids : List EntityId} (ledger : sk.Ledger hosted held)
    (created : Constraint.create sk kind ids = .ok (c, sk')) :
    sk'.Ledger hosted (c :: held) ∧ c.decoration = none := by
  have knows := ledger.proper.knows_of_create created
  obtain ⟨es, _, _, rfl, rfl⟩ := Constraint.create_ok created
  have accounts : { sk with constraintCount := sk.constraintCount + 1 }.Accounts
      (hosted ++ held) :=
    ledger.accounts.of_counts (Nat.le_refl _) (Nat.le_succ _) rfl rfl
  refine ⟨⟨ledger.proper.of_entities rfl rfl, ?_, ledger.registers⟩, rfl⟩
  refine (accounts.cons knows rfl fun d hd same => ?_).perm List.perm_middle
  -- all ids that were given out are smaller
  have := (ledger.accounts.known d hd).issued
  rw [same] at this
  simp only at this
  omega

/-- A constraint that is held may get a decoration. -/
theorem decorate (ledger : sk.Ledger hosted (c :: held)) (plain : c.decoration = none) :
    sk.decorate.2.Ledger hosted ({ c with decoration := some sk.decorate.1 } :: held) :=
  ⟨ledger.proper.of_entities rfl rfl,
    ((ledger.accounts.perm List.perm_middle.symm).decorate plain).perm List.perm_middle,
    ledger.registers⟩

/-- A constraint that was held is hosted from now on. -/
theorem host (ledger : sk.Ledger hosted (c :: held)) (space : Option Nat) :
    (sk.register c.id c.entities).Ledger ({ c with space } :: hosted) held :=
  ⟨ledger.proper.changeConstraints _,
    ((ledger.accounts.perm List.perm_middle.symm).place space).of_counts (Nat.le_refl _)
      (Nat.le_refl _) rfl rfl,
    ledger.registers.register c space⟩

/-- A constraint that was hosted is held from now on, and its decoration is free. -/
theorem release (ledger : sk.Ledger (c :: hosted) held) :
    (c.undecorate (sk.unregister c.id c.entities)).2.Ledger hosted
      ({ c with decoration := none, space := none } :: held) := by
  have accounts : (sk.unregister c.id c.entities).Accounts (c :: (hosted ++ held)) :=
    ledger.accounts.of_counts (Nat.le_refl _) (Nat.le_refl _) rfl rfl
  have others : ∀ d ∈ hosted, d.id ≠ c.id := by
    intro d hd same
    have mem : d.id ∈ (hosted ++ held).map (·.id) :=
      List.mem_map_of_mem (List.mem_append_left _ hd)
    rw [same] at mem
    exact (List.nodup_cons.mp ledger.accounts.ids).1 mem
  rw [Constraint.undecorate_eq]
  exact ⟨(ledger.proper.changeConstraints _).of_entities rfl rfl,
    (accounts.undecorate.place none).perm List.perm_middle,
    (ledger.registers.unregister others)⟩

/-- A constraint that was held, but not hosted, may be taken off its entities and lose its decoration.
Then it may be forgotten. -/
theorem reject (ledger : sk.Ledger hosted (c :: held)) :
    { sk.unregister c.id c.entities with
      decorations := sk.decorations.filter fun d => c.decoration ≠ some d }.Ledger hosted held := by
  rw [ledger.registers.unregister_eq_self ledger.proper.toDistinct ledger.unhosted]
  exact ⟨ledger.proper.of_entities rfl rfl,
    (ledger.accounts.perm List.perm_middle.symm).undecorate.drop rfl, ledger.registers⟩

/-- A constraint that is held may be forgotten if it carries no decoration. -/
theorem drop (ledger : sk.Ledger hosted (c :: held)) (plain : c.decoration = none) :
    sk.Ledger hosted held :=
  ⟨ledger.proper, (ledger.accounts.perm List.perm_middle.symm).drop plain, ledger.registers⟩

theorem drop_append : ∀ {cs : List Constraint}, sk.Ledger hosted (cs ++ held) →
    (∀ c ∈ cs, c.decoration = none) → sk.Ledger hosted held
  | [], ledger, _ => ledger
  | c :: _, ledger, plain =>
    (ledger.drop (plain c List.mem_cons_self)).drop_append fun d hd =>
      plain d (List.mem_cons_of_mem c hd)

/-- Entities may go that no hosted constraint has in the families of its own. -/
theorem without {ids : List EntityId} (ledger : sk.Ledger hosted held)
    (free : ∀ d ∈ hosted, ∀ id ∈ ids, id ∉ d.entities.flatMap sk.subtree) :
    (sk.without ids).Ledger hosted held :=
  ⟨ledger.proper.without ids,
    ledger.accounts.of_counts (Nat.le_refl _) (Nat.le_refl _) rfl rfl, ledger.registers.without free⟩

end Ledger

end Sketch

end SketchSolver
