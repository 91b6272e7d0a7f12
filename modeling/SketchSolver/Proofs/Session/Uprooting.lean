import SketchSolver.Proofs.Session.Events
import SketchSolver.Proofs.Session.Locking
import SketchSolver.Proofs.Session.Restoring

/-!
# What goes with an entity

Removing entities takes off the listed ones that are roots, each with its family, and
every constraint that has one of its entities among them. It takes off nothing else
(`Shed`).

The entities are removed one after the other, and each time the constraints are found by
what is registered on the family. Two facts make the outcome independent of the order:
families are apart, so an earlier removal leaves the family of a later root as it was
(`Families.mem_uprooted_cons`), and what is registered on a family are the constraints
that have one of its members among their entities, because an entity that a member is
below is a member itself (`Tidy.mem_attached`). So an id may be listed twice, before or
after the id of a point of the same family, and an id may be listed that is not there.

What a constraint that is left reads follows from the traces of its creation: its
parameters are those of its entities, and these stay. Whether some of what goes has the
same parameters is another question. Shapes may be entered on parameters that others have,
and then a point goes and a segment that starts in it stays, with the parameters of the
point. So a constraint reads nothing of what goes only if no root that goes shares a
parameter with one that stays (`Apart`); it is so when no two roots share any. Since a
point has no parameter but those of its shape, looking at roots is enough
(`Families.not_shared`).

All of this is put together in `Uproots`, for the session before and the session after,
whether the solve at the end succeeds or not (`Tidy.removeEntities_uproots`). The main
statement `removeEntities_through` says so of every session that was arrived at by rooted
events. Both conditions are needed, as `not_exact_sharedTip_strayed` shows: roots that
share parameters break the last part of `Uproots`, and registrations that were changed
behind the session's back break the part about which constraints go.
-/

namespace SketchSolver

variable {α : Type}

/-! ## Entities without their constraints -/

/-- The entity with nothing registered on it. -/
def Entity.bare (e : Entity) : Entity := { e with constraints := [] }

namespace Sketch

variable {sk sk' : Sketch α} {e d : Entity} {id : EntityId} {ids : List EntityId}

/-- The entities of a sketch, whatever is registered on them. -/
def bare (sk : Sketch α) : List Entity := sk.entities.map Entity.bare

/-- What is registered on entities does not show when they are bare. -/
theorem bare_changeConstraints (sk : Sketch α) (ids : List EntityId)
    (change : List ConstraintId → List ConstraintId) :
    (sk.changeConstraints ids change).bare = sk.bare := by
  unfold bare changeConstraints
  rw [List.map_map]
  refine List.map_congr_left fun e _ => ?_
  rw [Function.comp_apply]
  split
  next => rfl
  next => rfl

/-- Taking entities off, they go from the bare entities as well. -/
theorem bare_without (sk : Sketch α) (ids : List EntityId) :
    (sk.without ids).bare = sk.bare.filter (·.id ∉ ids) := by
  unfold bare without
  rw [List.filter_map]
  rfl

/-- Bare entities have ids of their own, too. -/
theorem Distinct.bare_inj (distinct : sk.Distinct) (he : e ∈ sk.bare) (hd : d ∈ sk.bare)
    (same : e.id = d.id) : e = d := by
  obtain ⟨e, was, rfl⟩ := List.mem_map.mp he
  obtain ⟨d, was', rfl⟩ := List.mem_map.mp hd
  rw [List.inj_on_of_nodup_map distinct.nodup was was' same]

/-! ## Roots and their families -/

/-- Whether the sketch has an entity with an id that is no point of another one. -/
def isRoot (sk : Sketch α) (id : EntityId) : Bool := (sk.entity? id).any (·.parent.isNone)

/-- The entities that go when some are removed: the families of those that are roots. -/
def uprooted (sk : Sketch α) (ids : List EntityId) : List EntityId :=
  (ids.filter sk.isRoot).flatMap sk.subtree

/-- No root that goes shares a parameter with one that stays. -/
def Apart (sk : Sketch α) (gone : List EntityId) : Prop :=
  ∀ e ∈ sk.roots, e.id ∈ gone → ∀ d ∈ sk.roots, d.id ∉ gone →
    ∀ h ∈ e.shape.params, h ∉ d.shape.params

theorem isRoot_iff : sk.isRoot id ↔ ∃ e, sk.entity? id = some e ∧ e.parent = none := by
  unfold isRoot
  cases sk.entity? id with
  | none => simp
  | some e => simp

/-- The id of a point, or of nothing, is passed over. -/
theorem uprooted_of_not_isRoot (not : sk.isRoot id = false) : sk.uprooted [id] = [] := by
  unfold uprooted
  rw [List.filter_cons_of_neg (by simp [not])]
  rfl

/-- A single root goes with what is below it. -/
theorem uprooted_of_isRoot (root : sk.isRoot id) : sk.uprooted [id] = sk.subtree id := by
  unfold uprooted
  rw [List.filter_cons_of_pos root, List.filter_nil, List.flatMap_singleton]

namespace Families

/-- What goes are the members of the families whose roots are listed. -/
theorem mem_uprooted (families : sk.Families) {x : EntityId} :
    x ∈ sk.uprooted ids ↔ ∃ d ∈ sk.bare, d.id = x ∧
      ∃ e ∈ sk.bare, e.parent = none ∧ e.id ∈ ids ∧ d.root = e.id := by
  unfold uprooted bare
  simp only [List.mem_flatMap, List.mem_filter, isRoot_iff]
  constructor
  · rintro ⟨id, ⟨listed, e, found, root⟩, below⟩
    obtain ⟨he, rfl⟩ := entity?_some found
    obtain ⟨d, hd, rfl, member⟩ := (families.mem_subtree he root).mp below
    exact ⟨d.bare, List.mem_map_of_mem hd, rfl, e.bare, List.mem_map_of_mem he, root, listed,
      member⟩
  · rintro ⟨_, hd, rfl, _, he, root, listed, member⟩
    obtain ⟨d, was, rfl⟩ := List.mem_map.mp hd
    obtain ⟨e, was', rfl⟩ := List.mem_map.mp he
    exact ⟨e.id, ⟨listed, e, families.entity? was', root⟩,
      (families.mem_subtree was' root).mpr ⟨d, was, rfl, member⟩⟩

/-- An entity goes just when its root does. -/
theorem root_mem_uprooted (families : sk.Families) (he : e ∈ sk.entities) :
    e.root ∈ sk.uprooted ids ↔ e.id ∈ sk.uprooted ids := by
  obtain ⟨r, hr, is, _⟩ := families.exists_root he
  obtain ⟨hr, top⟩ := List.mem_filter.mp hr
  have own : r.root = r.id := Entity.root_of_none (Option.isNone_iff_eq_none.mp top)
  -- both are members of the same family
  have member : ∀ d ∈ sk.entities, d.root = e.root → (d.id ∈ sk.uprooted ids ↔
      ∃ r ∈ sk.bare, r.parent = none ∧ r.id ∈ ids ∧ e.root = r.id) := by
    intro d hd same
    rw [families.mem_uprooted]
    constructor
    · rintro ⟨b, hb, is, r, hr, root, listed, member⟩
      rw [families.bare_inj hb (List.mem_map_of_mem hd) is] at member
      exact ⟨r, hr, root, listed, same.symm.trans member⟩
    · rintro ⟨r, hr, root, listed, member⟩
      exact ⟨d.bare, List.mem_map_of_mem hd, rfl, r, hr, root, listed, same.trans member⟩
  rw [← is, member r hr (own.trans is), member e he rfl]

/-- **Where no root that goes shares a parameter with one that stays, no entity does.** -/
theorem not_shared (families : sk.Families) (apart : sk.Apart (sk.uprooted ids))
    (he : e ∈ sk.entities) (gone : e.id ∈ sk.uprooted ids) (hd : d ∈ sk.entities)
    (stays : d.id ∉ sk.uprooted ids) : ∀ h ∈ e.shape.params, h ∉ d.shape.params := by
  intro h read read'
  obtain ⟨r, hr, is, reads⟩ := families.exists_root he
  obtain ⟨r', hr', is', reads'⟩ := families.exists_root hd
  rw [← families.root_mem_uprooted he, ← is] at gone
  rw [← families.root_mem_uprooted hd, ← is'] at stays
  exact apart r hr gone r' hr' stays h (reads h read) (reads' h read')

/-- **After one root is gone, the families of the others are what they were.** -/
theorem mem_uprooted_cons (families : sk.Families) (families' : sk'.Families)
    (left : sk'.bare = sk.bare.filter (·.id ∉ sk.uprooted [id])) (x : EntityId) :
    x ∈ sk.uprooted [id] ++ sk'.uprooted ids ↔ x ∈ sk.uprooted (id :: ids) := by
  have mem_left : ∀ d, d ∈ sk'.bare ↔ d ∈ sk.bare ∧ d.id ∉ sk.uprooted [id] := fun d => by
    rw [left, List.mem_filter, decide_eq_true_eq]
  have all : x ∈ sk.uprooted (id :: ids) ↔ _ := families.mem_uprooted
  rw [List.mem_append, families'.mem_uprooted, all]
  constructor
  · rintro (first | ⟨d, hd, rfl, e, he, root, listed, member⟩)
    · obtain ⟨d, hd, rfl, e, he, root, listed, member⟩ := families.mem_uprooted.mp first
      rw [List.mem_singleton] at listed
      exact ⟨d, hd, rfl, e, he, root, listed ▸ List.mem_cons_self, member⟩
    · exact ⟨d, ((mem_left d).mp hd).1, rfl, e, ((mem_left e).mp he).1, root,
        List.mem_cons_of_mem _ listed, member⟩
  · rintro ⟨d, hd, rfl, e, he, root, listed, member⟩
    by_cases gone : d.id ∈ sk.uprooted [id]
    · exact Or.inl gone
    -- the root is not the one that is gone, for then its whole family would be
    have other : e.id ≠ id := fun same => gone (families.mem_uprooted.mpr
      ⟨d, hd, rfl, e, he, root, List.mem_singleton.mpr same, member⟩)
    have stays : e.id ∉ sk.uprooted [id] := by
      intro gone'
      obtain ⟨d', hd', same, e', _, _, listed', member'⟩ := families.mem_uprooted.mp gone'
      rw [families.bare_inj hd' he same, Entity.root_of_none root] at member'
      exact other (member'.trans (List.mem_singleton.mp listed'))
    exact Or.inr ⟨d, (mem_left d).mpr ⟨hd, gone⟩, rfl, e, (mem_left e).mpr ⟨he, stays⟩, root,
      (List.mem_cons.mp listed).resolve_left other, member⟩

/-- What a member of a family is below is a member. -/
theorem mem_subtree_of_shared (families : sk.Families) (root : sk.isRoot id) {x y : EntityId}
    (member : x ∈ sk.subtree id) (below : x ∈ sk.subtree y) : y ∈ sk.subtree id := by
  obtain ⟨e, found, none⟩ := isRoot_iff.mp root
  obtain ⟨he, rfl⟩ := entity?_some found
  obtain ⟨d, hd, rfl, same⟩ := (families.mem_subtree he none).mp member
  obtain ⟨p, foundp, ⟨child, _⟩ | rfl⟩ := Sketch.mem_subtree.mp below
  · obtain ⟨hp, rfl⟩ := entity?_some foundp
    -- the root that the member names is what it is below
    rw [Entity.root_of_parent ((families.kin p hp d hd).child child)] at same
    rw [same]
    exact Sketch.mem_subtree.mpr ⟨e, found, Or.inr rfl⟩
  · exact member

end Families

end Sketch

/-! ## Taking constraints out leaves the entities -/

/-- Taking a constraint out of a space changes registrations and decorations, no entity. -/
theorem Space.bare_removeConstraint (sp : Space α) (sk : Sketch α) (id : ConstraintId) :
    (sp.removeConstraint sk id).2.2.bare = sk.bare := by
  cases found : sp.constraint? id with
  | none =>
    unfold removeConstraint
    rw [found]
  | some c =>
    rw [removeConstraint_eq sk found, Constraint.undecorate_eq]
    exact sk.bare_changeConstraints c.entities _

namespace Session

variable {s s' s'' : Session α} {held : List Constraint} {gone gone' : List EntityId}

theorem bare_detachFrom (id : ConstraintId) : ∀ (spaces : List (Space α)) (sk : Sketch α),
    (detachFrom id spaces sk).2.2.bare = sk.bare
  | [], _ => rfl
  | sp :: rest, sk => by
    unfold detachFrom
    split
    next => exact sp.bare_removeConstraint sk id
    next => exact bare_detachFrom id rest sk

/-- Taking constraints out leaves the entities. -/
theorem bare_foldl_detach : ∀ (ids : List ConstraintId) (s : Session α),
    (ids.foldl (fun s c => (s.detach c).2) s).sketch.bare = s.sketch.bare
  | [], _ => rfl
  | id :: ids, s => (bare_foldl_detach ids _).trans (bare_detachFrom id s.spaces s.sketch)

/-! ## One entity after the other -/

/-- Some entities are gone, with the constraints that have one of their entities among them, and all
else is left. -/
structure Shed (gone : List EntityId) (s s' : Session α) : Prop where
  entities : s'.sketch.bare = s.sketch.bare.filter (·.id ∉ gone)
  constraints : s'.constraints.Perm (s.constraints.filter fun c => ∀ id ∈ c.entities, id ∉ gone)

namespace Shed

theorem refl (s : Session α) : Shed [] s s := by
  refine ⟨(List.filter_eq_self.mpr fun e _ => ?_).symm,
    .of_eq (List.filter_eq_self.mpr fun c _ => ?_).symm⟩
  · simp
  · simp

theorem trans (first : Shed gone s s') (later : Shed gone' s' s'') :
    Shed (gone ++ gone') s s'' := by
  refine ⟨?_, later.constraints.trans ((first.constraints.filter _).trans (.of_eq ?_))⟩
  · rw [later.entities, first.entities, List.filter_filter]
    exact List.filter_congr fun e _ => by simp [Bool.and_comm]
  · rw [List.filter_filter]
    refine List.filter_congr fun c _ => ?_
    rw [Bool.eq_iff_iff]
    simp only [Bool.and_eq_true, decide_eq_true_eq, List.mem_append, not_or]
    exact ⟨fun both id mem => ⟨both.2 id mem, both.1 id mem⟩,
      fun each => ⟨fun id mem => (each id mem).2, fun id mem => (each id mem).1⟩⟩

/-- Only which entities are gone matters. -/
theorem congr (shed : Shed gone s s') (same : ∀ id, id ∈ gone ↔ id ∈ gone') :
    Shed gone' s s' := by
  refine ⟨shed.entities.trans ?_, shed.constraints.trans (.of_eq ?_)⟩
  · exact List.filter_congr fun e _ => by simp only [same]
  · exact List.filter_congr fun c _ => by simp only [same]

end Shed

/-- **What is registered on a family are the constraints on one of its members.** -/
theorem Tidy.mem_attached (tidy : s.Tidy held) (families : s.sketch.Families) {id : EntityId}
    (root : s.sketch.isRoot id) {c : Constraint} (hc : c ∈ s.constraints) :
    c.id ∈ s.attached id ↔ ∃ e ∈ c.entities, e ∈ s.sketch.subtree id := by
  unfold attached
  rw [Ascending.mem_ofList, List.mem_flatMap]
  constructor
  · rintro ⟨x, member, registered⟩
    obtain ⟨d, hd, same, covered⟩ := (tidy.ledger.registers x c.id).mp registered
    obtain rfl := List.inj_on_of_nodup_map tidy.ids hd hc same
    obtain ⟨e, mem, below⟩ := List.mem_flatMap.mp covered
    exact ⟨e, mem, families.mem_subtree_of_shared root member below⟩
  · rintro ⟨e, mem, member⟩
    obtain ⟨entity, there⟩ :=
      Option.isSome_iff_exists.mp (Sketch.contains_of_mem_subtree member)
    refine ⟨e, member, (tidy.ledger.registers e c.id).mpr ⟨c, hc, rfl, ?_⟩⟩
    exact List.mem_flatMap.mpr ⟨e, mem, Sketch.mem_subtree.mpr ⟨entity, there, Or.inr rfl⟩⟩

/-- An entity that is removed goes with its family and the constraints on it. -/
theorem Tidy.removeEntity_shed (tidy : s.Tidy held) (families : s.sketch.Families)
    (id : EntityId) : Shed (s.sketch.uprooted [id]) s (s.removeEntity id) := by
  cases root : s.sketch.isRoot id with
  | false =>
    have same : s.removeEntity id = s := by
      unfold Session.removeEntity
      unfold Sketch.isRoot at root
      split
      next => rfl
      next found =>
        rw [found] at root
        rw [if_pos (by simpa using root)]
    rw [same, Sketch.uprooted_of_not_isRoot root]
    exact .refl s
  | true =>
    obtain ⟨e, found, none⟩ := Sketch.isRoot_iff.mp root
    obtain ⟨_, constraints, subtree⟩ := tidy.foldl_detach (s.attached id)
    have bare := bare_foldl_detach (s.attached id) s
    rw [Sketch.uprooted_of_isRoot root]
    unfold Session.removeEntity
    rw [found]
    simp only
    rw [if_neg (by simp [none])]
    generalize (s.attached id).foldl (fun s c => (s.detach c).2) s = s' at constraints subtree bare
    refine ⟨?_, .of_eq (constraints.trans (List.filter_congr fun c hc => ?_))⟩
    · rw [Sketch.bare_without, subtree, bare]
    · simp only [tidy.mem_attached families root hc, not_exists, not_and]

/-- One entity after the other, by induction on the list: what goes later is what would have gone
anyway. -/
theorem Tidy.foldl_removeEntity_shed : ∀ (ids : List EntityId) {s : Session α}, s.Tidy held →
    s.Filed → Shed (s.sketch.uprooted ids) s (ids.foldl Session.removeEntity s)
  | [], s, _, _ => .refl s
  | id :: ids, s, tidy, filed => by
    have first := tidy.removeEntity_shed filed.families id
    have filed' := (removeEntity_files s id filed).1
    have later := foldl_removeEntity_shed ids (tidy.removeEntity id) filed'
    exact (first.trans later).congr
      (filed.families.mem_uprooted_cons filed'.families first.entities)

/-! ## Removing and solving -/

/-- What removing entities comes to, when these are the ones that go. -/
structure Uproots (gone : List EntityId) (s s' : Session α) : Prop extends Shed gone s s' where
  /-- A constraint is hosted no more just when one of its entities is gone. -/
  lost : ∀ c ∈ s.constraints,
    c.id ∉ s'.constraints.map (·.id) ↔ ∃ id ∈ c.entities, id ∈ gone
  /-- A constraint that is gone is registered nowhere. -/
  unregistered : ∀ c ∈ s.constraints, c.id ∉ s'.constraints.map (·.id) →
    ∀ e ∈ s'.sketch.entities, c.id ∉ e.constraints
  /-- A hosted constraint whose entities were there reads a parameter, of what is gone or not, only as
  one of an entity of its own, which stays. -/
  through : ∀ c ∈ s'.constraints, (∀ id ∈ c.entities, s.sketch.contains id) → ∀ h ∈ c.params,
    ∃ d ∈ s.sketch.entities, d.id ∈ c.entities ∧ d.id ∉ gone ∧ h ∈ d.shape.params
  /-- So it reads none of what is gone, unless a root that goes shares one with a root that stays. -/
  apart : s.sketch.Apart gone →
    ∀ c ∈ s'.constraints, (∀ id ∈ c.entities, s.sketch.contains id) →
      ∀ e ∈ s.sketch.entities, e.id ∈ gone → ∀ h ∈ e.shape.params, h ∉ c.params
  /-- Solving is put off nowhere. -/
  closed : s'.inTransaction = false ∧ ∀ sp ∈ s'.spaces, sp.inTransaction = false

/-- Since ids are hosted once, a constraint is missed by its id just when it was taken off. -/
theorem Shed.lost (shed : Shed gone s s') (tidy : s.Tidy held) {c : Constraint}
    (hc : c ∈ s.constraints) :
    c.id ∉ s'.constraints.map (·.id) ↔ ∃ id ∈ c.entities, id ∈ gone := by
  have stays : c.id ∈ s'.constraints.map (·.id) ↔ ∀ id ∈ c.entities, id ∉ gone := by
    rw [(shed.constraints.map (·.id)).mem_iff, List.mem_map]
    constructor
    · rintro ⟨d, left, same⟩
      obtain ⟨hd, free⟩ := List.mem_filter.mp left
      obtain rfl := List.inj_on_of_nodup_map tidy.ids hd hc same
      exact of_decide_eq_true free
    · exact fun free => ⟨c, List.mem_filter.mpr ⟨hc, decide_eq_true free⟩, rfl⟩
  rw [stays]
  simp only [not_forall, not_not, exists_prop]

/-- What nobody hosts is registered nowhere, in tidy books. -/
theorem Tidy.unregistered (tidy : s.Tidy held) {id : ConstraintId}
    (unhosted : id ∉ s.constraints.map (·.id)) : ∀ e ∈ s.sketch.entities, id ∉ e.constraints := by
  intro e he registered
  have on : id ∈ s.sketch.constraintsOf e.id := by
    unfold Sketch.constraintsOf
    rw [tidy.ledger.proper.entity? he]
    exact registered
  obtain ⟨d, hd, rfl, _⟩ := (tidy.ledger.registers e.id id).mp on
  exact unhosted (List.mem_map_of_mem hd)

/-- **What a hosted constraint reads it reads through its entities**, if they are there. -/
theorem Filed.through (filed : s.Filed) {c : Constraint} (hc : c ∈ s.constraints)
    (there : ∀ id ∈ c.entities, s.sketch.contains id) {h : Handle} (reads : h ∈ c.params) :
    ∃ d ∈ s.sketch.entities, d.id ∈ c.entities ∧ h ∈ d.shape.params := by
  obtain ⟨sp, mem, hc⟩ := List.mem_flatMap.mp hc
  exact ((filed.each sp mem).hosted c hc).2.owned there reads

variable [Zero α] [One α] [Add α] [Sub α] [Mul α] [Div α] [Neg α] [LT α] [LE α] [BEq α]
variable [DecidableLT α] [DecidableLE α] [Elementary α]

/-- **Removing entities removes exactly what depends on them**, whether the solve that ends it
succeeds or not. -/
theorem Tidy.removeEntities_uproots (tidy : s.Tidy held) (filed : s.Filed) (ids : List EntityId) :
    Uproots (s.sketch.uprooted ids) s (s.removeEntities ids).2 := by
  have removed : Shed (s.sketch.uprooted ids) s.startTransaction
      (ids.foldl Session.removeEntity s.startTransaction) :=
    tidy.startTransaction.foldl_removeEntity_shed ids (startTransaction_files s filed).1
  have regular := (tidy.startTransaction.foldl_removeEntity ids).regular
  have tidy' := tidy.removeEntities ids
  obtain ⟨_, _, closed⟩ := finishTransaction_spec regular
  obtain ⟨_, constraints, entities⟩ := finishTransaction_frame regular
  -- beginning and end of the transaction move no constraint, so what is lost goes with the roots
  have hosted : s.startTransaction.constraints = s.constraints := by
    unfold Session.constraints Session.startTransaction
    exact List.flatMap_map _ _ _
  have shed : Shed (s.sketch.uprooted ids) s (s.removeEntities ids).2 := by
    refine ⟨?_, ?_⟩
    · exact (congrArg (List.map Entity.bare) entities).trans removed.entities
    · rw [← hosted]
      exact constraints.trans removed.constraints
  have through : ∀ c ∈ (s.removeEntities ids).2.constraints,
      (∀ id ∈ c.entities, s.sketch.contains id) → ∀ h ∈ c.params, ∃ d ∈ s.sketch.entities,
        d.id ∈ c.entities ∧ d.id ∉ s.sketch.uprooted ids ∧ h ∈ d.shape.params := by
    intro c left there h reads
    obtain ⟨hc, free⟩ := List.mem_filter.mp (shed.constraints.mem_iff.mp left)
    obtain ⟨d, hd, listed, read⟩ := filed.through hc there reads
    exact ⟨d, hd, listed, of_decide_eq_true free d.id listed, read⟩
  refine ⟨shed, fun c hc => shed.lost tidy hc, fun c _ gone => tidy'.unregistered gone, through,
    fun apart c left there e he gone h read reads => ?_, closed⟩
  obtain ⟨d, hd, _, stays, read'⟩ := through c left there h reads
  exact filed.families.not_shared apart he gone hd stays h read read'

/-- Removing entities can only fail to solve. -/
theorem Tidy.rolledBack_of_removeEntities (tidy : s.Tidy held) {ids : List EntityId}
    {e : Failure α} (failed : (s.removeEntities ids).1 = .error e) :
    ∃ cause, e = .rolledBack cause := by
  have regular := (tidy.startTransaction.foldl_removeEntity ids).regular
  unfold Session.removeEntities at failed
  rw [(finishTransaction_spec regular).1] at failed
  unfold outcome at failed
  split at failed
  next => cases failed
  next cause _ _ => exact ⟨cause, (Except.error.inj failed).symm⟩

end Session

namespace Bench

variable [Zero α] [One α] [Add α] [Sub α] [Mul α] [Div α] [Neg α] [LT α] [LE α] [BEq α]
variable [DecidableLT α] [DecidableLE α] [Elementary α]

/-- **Removing entities removes exactly what depends on them**, whatever has happened before, as
long as no spaces were thrown away and no entities were taken off in another way. It can only fail
to solve. -/
theorem removeEntities_through (name : String) (settings : Settings α) {events : List (Event α)}
    (rooted : ∀ event ∈ events, event.Rooted) (ids : List EntityId) {s : Session α}
    (reached : (through events (create name settings)).session = s) :
    Session.Uproots (s.sketch.uprooted ids) s (s.removeEntities ids).2 ∧
      ∀ e, (s.removeEntities ids).1 = .error e → ∃ cause, e = .rolledBack cause := by
  have kept := kept_through events (kept_create name settings) rooted
  have filed := (filed_through events (filed_create name settings)).session
  rw [reached] at filed
  have tidy := kept.tidy
  rw [reached] at tidy
  exact ⟨tidy.removeEntities_uproots filed ids, fun e => tidy.rolledBack_of_removeEntities⟩

/-- A segment is to be horizontal, its end is tied to a point, and this one to another point.
Solving is put off. -/
def tiedSegment : List (Event Float) := [
  .deed (.move (.draw (.segment 0 0 4 3))), .deed (.move (.draw (.point 4 4))),
  .deed (.move (.draw (.point 9 9))), .deed (.move (.operate .startTransaction trivial)),
  .deed (.move (.operate (.constrain .horizontal [⟨3⟩]) trivial)),
  .deed (.move (.operate (.constrain .coincident [⟨2⟩, ⟨4⟩]) trivial)),
  .deed (.move (.operate (.constrain .coincident [⟨4⟩, ⟨5⟩]) trivial))]

/-- The segment goes with its ends, whatever else is listed, and two of the constraints go. -/
theorem removeEntities_through_tiedSegment : ∃ s : Session Float,
    (through tiedSegment (create "sketch" Settings.standard)).session = s ∧
    (∀ event ∈ tiedSegment, event.Rooted) ∧
    s.constraints.map (·.entities) = [[⟨3⟩], [⟨2⟩, ⟨4⟩], [⟨4⟩, ⟨5⟩]] ∧
    s.sketch.uprooted [⟨1⟩, ⟨3⟩, ⟨9⟩] = [⟨1⟩, ⟨2⟩, ⟨3⟩] ∧
    Session.Uproots (s.sketch.uprooted [⟨1⟩, ⟨3⟩, ⟨9⟩]) s
      (s.removeEntities [⟨1⟩, ⟨3⟩, ⟨9⟩]).2 ∧
    ∀ e, (s.removeEntities [⟨1⟩, ⟨3⟩, ⟨9⟩]).1 = .error e → ∃ cause, e = .rolledBack cause := by
  have facts : ∃ s : Session Float,
      (through tiedSegment (create "sketch" Settings.standard)).session = s ∧
      s.constraints.map (·.entities) = [[⟨3⟩], [⟨2⟩, ⟨4⟩], [⟨4⟩, ⟨5⟩]] ∧
      s.sketch.uprooted [⟨1⟩, ⟨3⟩, ⟨9⟩] = [⟨1⟩, ⟨2⟩, ⟨3⟩] := by
    refine ⟨_, rfl, ?_⟩
    decide +kernel
  have rooted : ∀ event ∈ tiedSegment, event.Rooted := by simp [tiedSegment, Event.Rooted]
  obtain ⟨s, reached, hosted, gone⟩ := facts
  exact ⟨s, reached, rooted, hosted, gone,
    removeEntities_through "sketch" Settings.standard rooted [⟨1⟩, ⟨3⟩, ⟨9⟩] reached⟩

/-- A segment starts at a point that was drawn before, on the same two parameters. It is to be
horizontal, and solving is put off. -/
def sharedTip : List (Event Float) := [
  .deed (.move (.draw (.point 0 0))),
  .deed (.move (.draw (.shaped [("x", 4), ("y", 3)] (.segment ⟨⟨0⟩, ⟨1⟩⟩ ⟨⟨2⟩, ⟨3⟩⟩)))),
  .deed (.move (.operate .startTransaction trivial)),
  .deed (.move (.operate (.constrain .horizontal [⟨4⟩]) trivial))]

/-- A segment is to be horizontal, but it was taken out of the books of the sketch that it is. -/
def strayed : Session Float :=
  let s := (through [.deed (.move (.draw (.segment 0 0 4 3))),
    .deed (.move (.operate .startTransaction trivial)),
    .deed (.move (.operate (.constrain .horizontal [⟨3⟩]) trivial))]
    (create "sketch" Settings.standard)).session
  { s with sketch := s.sketch.unregister ⟨1⟩ [⟨3⟩] }

/-- **Where roots share parameters, or registrations were changed, removing entities is not exact.**
When the point goes, the segment stays, and the constraint on it reads the parameters of the point.
When the segment of the second session goes, the constraint on it stays. -/
theorem not_exact_sharedTip_strayed :
    (∃ s, (through sharedTip (create "sketch" Settings.standard)).session = s ∧
      ¬ ∀ c ∈ (s.removeEntities [⟨1⟩]).2.constraints, (∀ id ∈ c.entities, s.sketch.contains id) →
        ∀ e ∈ s.sketch.entities, e.id ∈ s.sketch.uprooted [⟨1⟩] →
          ∀ h ∈ e.shape.params, h ∉ c.params) ∧
    ¬ ∀ c ∈ strayed.constraints,
      c.id ∉ (strayed.removeEntities [⟨3⟩]).2.constraints.map (·.id) ↔
        ∃ id ∈ c.entities, id ∈ strayed.sketch.uprooted [⟨3⟩] := by
  refine ⟨⟨_, rfl, ?_⟩, ?_⟩
  · decide +kernel
  · decide +kernel

end Bench

end SketchSolver
