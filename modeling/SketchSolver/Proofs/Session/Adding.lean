import SketchSolver.Proofs.Session.Refreshing

/-!
# Adding constraints to a session

A constraint that is added is a `Newcomer`: it was created on the sketch and no
space hosts it. The parameters that it shares with other spaces belong to its
entities; that can fail only for a constraint that was removed and is added again
after its entities are gone.

Adding it keeps the session in order: the space that hosts it changes, and the
constraint is registered on its entities, which anchors what it shares
(`Orderly.host`). The order of these two steps differs. While solving is put off the
constraint is hosted and registered at once. Otherwise it is hosted, the space is prepared
and solved, and only an accepted constraint is registered; a rejected one is taken out
again and was never registered. `Added` has one case for each, and the lemmas here read
from it what the session needs: the invariant (`Orderly.added`), who hosts what
(`hosted_of_added`), and that no id was given out meanwhile (`count_of_added`).

While the constraint is tried out, it is hosted without being registered, so the invariant
does not hold then. That is no difficulty, because the other spaces are not looked at
before the trial is over.

What is settled stays so (`settled_of_added`): the space itself was prepared for what it
hosts in the end, and for the other spaces the trial is work on parameters that are drawn
or not theirs.

A constraint that is created just before is a newcomer everywhere (`newcomer_of_create`).
-/

namespace SketchSolver

variable {α : Type}

/-- The parameter belongs to an entity of the constraint. -/
def Sketch.Owned (sk : Sketch α) (c : Constraint) (h : Handle) : Prop :=
  ∃ e ∈ sk.entities, e.id ∈ c.entities ∧ h ∈ e.shape.params

/-- Whose a parameter is does not depend on what is registered. -/
theorem Sketch.Owned.changeConstraints {sk : Sketch α} {c : Constraint} {h : Handle}
    {ids : List EntityId} (owned : sk.Owned c h)
    (change : List ConstraintId → List ConstraintId) :
    (sk.changeConstraints ids change).Owned c h := by
  obtain ⟨e, he, listed, hh⟩ := owned
  refine ⟨_, List.mem_map_of_mem he, ?_⟩
  split
  next => exact ⟨listed, hh⟩
  next => exact ⟨listed, hh⟩

/-- A parameter of an entity of the constraint is drawn. -/
theorem Sketch.Owned.drawn {sk : Sketch α} {c : Constraint} {h : Handle} (owned : sk.Owned c h) :
    h ∈ sk.params := by
  obtain ⟨e, he, _, hh⟩ := owned
  exact List.mem_flatMap.mpr ⟨e, he, hh⟩

/-- Entities that are found under their ids, one after the other. -/
theorem Sketch.of_mapM_entity {sk : Sketch α} {ids : List EntityId} {es : List Entity}
    (found : ids.mapM (sk.entity : EntityId → Except (Failure α) Entity) = .ok es) :
    es.map (·.id) = ids ∧ ∀ e ∈ es, e ∈ sk.entities := by
  have each : List.Forall₂ (fun id e => e ∈ sk.entities ∧ e.id = id) ids es :=
    (mapM_ok_iff.mp found).imp fun id e eq => entity?_some (entity_ok_iff.mp eq)
  clear found
  induction each with
  | nil => exact ⟨rfl, fun e mem => absurd mem List.not_mem_nil⟩
  | cons first _ ih =>
    obtain ⟨same, drawn⟩ := ih
    refine ⟨by rw [List.map_cons, first.2, same], fun e mem => ?_⟩
    rcases List.mem_cons.mp mem with rfl | mem
    · exact first.1
    · exact drawn e mem

/-- A constraint that is created reads parameters of its entities alone. -/
theorem Sketch.owned_of_create {sk sk' : Sketch α} {kind : Kind} {ids : List EntityId}
    {c : Constraint} {h : Handle} (created : Constraint.create sk kind ids = .ok (c, sk'))
    (mem : h ∈ c.params) : sk.Owned c h := by
  obtain ⟨es, found, _, rfl, _⟩ := Constraint.create_ok created
  obtain ⟨e, he, hh⟩ := List.mem_flatMap.mp mem
  obtain ⟨same, drawn⟩ := of_mapM_entity found
  exact ⟨e, drawn e he, same ▸ List.mem_map_of_mem he, hh⟩

namespace Session

open Space (Settled Added)

variable {s : Session α} {spaces spaces' rest : List (Space α)} {sp sp' : Space α}
variable {sk sk' : Sketch α} {c d : Constraint} {index i : Nat}

/-- The space at an index hosts the constraint. -/
def Hosts (spaces : List (Space α)) (i : Nat) (d : Constraint) : Prop :=
  ∃ sp, spaces[i]? = some sp ∧ d ∈ sp.constraints

/-- A constraint that can be added to the space at an index. -/
structure Newcomer (spaces : List (Space α)) (sk : Sketch α) (index : Nat) (c : Constraint) :
    Prop where
  fits : c.Fits
  issued : c.id.number ≤ sk.constraintCount
  unhosted : ∀ i d, Hosts spaces i d → d.id ≠ c.id
  owned : ∀ i d, Hosts spaces i d → i ≠ index → ∀ h ∈ c.params, h ∈ d.params → sk.Owned c h

namespace Newcomer

/-- A newcomer stays one while spaces host no more than before and ids are given out. -/
theorem of_hosts (new : Newcomer spaces sk index c)
    (hosts : ∀ i d, Hosts spaces' i d → Hosts spaces i d)
    (count : sk.constraintCount ≤ sk'.constraintCount)
    (owned : ∀ h, sk.Owned c h → sk'.Owned c h) : Newcomer spaces' sk' index c :=
  ⟨new.fits, Nat.le_trans new.issued count, fun i d hd => new.unhosted i d (hosts i d hd),
    fun i d hd ne h mem mem' => owned h (new.owned i d (hosts i d hd) ne h mem mem')⟩

end Newcomer

namespace Orderly

/-- **A space may host a newcomer**, which is registered on its entities. -/
theorem host (orderly : Orderly (sp :: rest) sk) (fits : c.Fits)
    (issued : c.id.number ≤ sk.constraintCount)
    (unhosted : ∀ tp ∈ sp :: rest, ∀ d ∈ tp.constraints, d.id ≠ c.id)
    (owned : ∀ tp ∈ rest, ∀ d ∈ tp.constraints, ∀ h ∈ c.params, h ∈ d.params → sk.Owned c h)
    (constraints : sp'.constraints.Perm (sp.constraints ++ [sp.hostedBy c]))
    (conflicting : sp'.conflicting = sp.conflicting) :
    Orderly (sp' :: rest) (sk.register c.id c.entities) := by
  -- every condition is about constraints one by one, and only the new one has to be looked at
  have hosted : ∀ d ∈ sp'.constraints, d ∈ sp.constraints ∨ d = sp.hostedBy c := by
    intro d hd
    have := constraints.mem_iff.mp hd
    rwa [List.mem_append, List.mem_singleton] at this
  have first : sp ∈ sp :: rest := List.mem_cons_self
  have others : Orderly rest (sk.register c.id c.entities) := by
    refine orderly.tail.of_fewer (forall₂_refl rest) (orderly.entities.changeConstraints _)
      (Nat.le_refl _) ?_
    exact fun _ _ _ _ _ anchored => anchored.register
  refine ⟨others.entities, ?_, ?_, ?_, List.pairwise_cons.mpr ⟨?_, others.compatible⟩⟩
  · intro tp mem
    rcases List.mem_cons.mp mem with rfl | mem
    · refine ⟨fun d hd => ?_, conflicting.trans (orderly.regular sp first).unmarked⟩
      rcases hosted d hd with old | rfl
      · exact (orderly.regular sp first).fits d old
      · exact fits
    · exact others.regular tp mem
  · intro tp mem d hd
    rcases List.mem_cons.mp mem with rfl | mem
    · rcases hosted d hd with old | rfl
      · exact orderly.issued sp first d old
      · exact issued
    · exact others.issued tp mem d hd
  · intro tp mem
    rcases List.mem_cons.mp mem with rfl | mem
    · rw [(constraints.map (·.id)).nodup_iff, List.map_append, List.nodup_append]
      refine ⟨orderly.distinct sp first, List.nodup_singleton _, fun x hx y hy => ?_⟩
      obtain ⟨d, hd, rfl⟩ := List.mem_map.mp hx
      rw [List.map_singleton, List.mem_singleton] at hy
      rw [hy]
      exact unhosted sp first d hd
    · exact others.distinct tp mem
  · intro tp mem
    have both := (List.pairwise_cons.mp orderly.compatible).1 tp mem
    refine ⟨fun x hx d hd => ?_, fun x hx d hd h mem₁ mem₂ => ?_⟩
    · rcases hosted x hx with old | rfl
      · exact both.distinct x old d hd
      · exact (unhosted tp (List.mem_cons_of_mem _ mem) d hd).symm
    · rcases hosted x hx with old | rfl
      · exact (both.anchored x old d hd h mem₁ mem₂).imp .register .register
      · -- what it shares it owns, and it is registered on the entities that it owns it by
        obtain ⟨e, he, listed, hh⟩ := owned tp mem d hd h mem₁ mem₂
        exact Or.inl (Sketch.anchored_register he listed hh)

end Orderly

/-! ## Outcomes -/

/-- What adding a constraint to the space at an index leaves. -/
structure AddedTo [Zero α] (s : Session α) (index : Nat) (c : Constraint) (s' : Session α) :
    Prop where
  inOrder : s'.InOrder
  sound : s.Sound → s'.Sound
  inTransaction : s'.inTransaction = s.inTransaction
  hosts : ∀ i d, Hosts s'.spaces i d → Hosts s.spaces i d ∨
    i = index ∧ d.id = c.id ∧ d.params = c.params
  count : s'.sketch.constraintCount = s.sketch.constraintCount
  owned : ∀ d h, s.sketch.Owned d h → s'.sketch.Owned d h

/-- A space other than the one at a position has a position of its own. -/
theorem exists_elsewhere {pre post : List (Space α)} {tp : Space α} (sp : Space α)
    (mem : tp ∈ pre ++ post) :
    ∃ i, i ≠ pre.length ∧ (pre ++ sp :: post)[i]? = some tp := by
  rcases List.mem_append.mp mem with left | right
  · obtain ⟨i, bound, found⟩ := List.mem_iff_getElem.mp left
    refine ⟨i, by omega, ?_⟩
    rw [List.getElem?_append_left bound, List.getElem?_eq_getElem bound, found]
  · obtain ⟨i, found⟩ := List.mem_iff_getElem?.mp right
    refine ⟨pre.length + 1 + i, by omega, ?_⟩
    rw [List.getElem?_append_right (by omega),
      show pre.length + 1 + i - pre.length = i + 1 by omega, List.getElem?_cons_succ, found]

section Outcomes

variable [Zero α] {r : Except (Failure α) Unit × Space α × Sketch α}

/-- Whatever becomes of a newcomer, the spaces stay in order. -/
theorem Orderly.added (orderly : Orderly (sp :: rest) sk) (fits : c.Fits)
    (issued : c.id.number ≤ sk.constraintCount)
    (unhosted : ∀ tp ∈ sp :: rest, ∀ d ∈ tp.constraints, d.id ≠ c.id)
    (owned : ∀ tp ∈ rest, ∀ d ∈ tp.constraints, ∀ h ∈ c.params, h ∈ d.params → sk.Owned c h)
    (added : Added sp sk c r) : Orderly (r.2.1 :: rest) r.2.2 := by
  cases added with
  | postponed => exact orderly.host fits issued unhosted owned (.refl _) rfl
  | accepted sp' sk' _ constraints conflicting sketch =>
    have hosts := orderly.host fits issued unhosted owned constraints conflicting
    exact hosts.of_entities (by rw [sketch]) (by rw [sketch]) (Nat.le_of_eq (by rw [sketch]))
  | rejected e sp' sk' index constraints conflicting sketch =>
    have fewer : Orderly (sp' :: rest) (sk.unregister c.id c.entities) := by
      refine orderly.of_fewer (.cons (.of_perm index constraints conflicting) (forall₂_refl rest))
        (orderly.entities.changeConstraints _) (Nat.le_refl _) ?_
      intro tp mem d hd h anchored
      refine anchored.unregister ?_
      rcases List.mem_cons.mp mem with rfl | mem
      · exact unhosted sp List.mem_cons_self d (constraints.mem_iff.mp hd)
      · exact unhosted tp (List.mem_cons_of_mem _ mem) d hd
    exact fewer.of_entities (by rw [sketch]) (by rw [sketch]) (Nat.le_of_eq (by rw [sketch]))

/-- The space hosts what it hosted, and perhaps the constraint. -/
theorem hosted_of_added (added : Added sp sk c r) :
    ∀ d ∈ r.2.1.constraints, d ∈ sp.constraints ∨ d = sp.hostedBy c := by
  intro d hd
  cases added with
  | postponed =>
    rwa [← List.mem_singleton, ← List.mem_append]
  | accepted sp' sk' _ constraints =>
    rw [← List.mem_singleton, ← List.mem_append]
    exact constraints.mem_iff.mp hd
  | rejected e sp' sk' _ constraints => exact Or.inl (constraints.mem_iff.mp hd)

theorem count_of_added (added : Added sp sk c r) :
    r.2.2.constraintCount = sk.constraintCount := by
  cases added with
  | postponed => rfl
  | accepted sp' sk' _ _ _ sketch =>
    rw [sketch]
    rfl
  | rejected e sp' sk' _ _ _ sketch =>
    rw [sketch]
    rfl

theorem owned_of_added (added : Added sp sk c r) {h : Handle} (owned : sk.Owned d h) :
    r.2.2.Owned d h := by
  cases added with
  | postponed => exact owned.changeConstraints _
  | accepted sp' sk' _ _ _ sketch =>
    rw [sketch]
    exact owned.changeConstraints _
  | rejected e sp' sk' _ _ _ sketch =>
    rw [sketch]
    exact owned.changeConstraints _

/-- A space that did not put off the solve is settled, and so are those that were. -/
theorem settled_of_added (idle : sp.inTransaction = false) (added : Added sp sk c r)
    (orderly : Orderly (sp :: rest) sk)
    (owned : ∀ tp ∈ rest, ∀ d ∈ tp.constraints, ∀ h ∈ c.params, h ∈ d.params → sk.Owned c h) :
    Settled r.2.1 r.2.2 ∧ ∀ tp ∈ rest, Settled tp sk → Settled tp r.2.2 := by
  have shared : ∀ tp ∈ rest, ∀ h ∈ sp.hostedParams ++ c.params, h ∈ tp.hostedParams →
      h ∈ sk.params := by
    intro tp mem h hh hh'
    rcases List.mem_append.mp hh with old | new
    · exact ((List.pairwise_cons.mp orderly.compatible).1 tp mem).shared old hh'
    · obtain ⟨d, hd, hp⟩ := List.mem_flatMap.mp hh'
      exact (owned tp mem d hd h new hp).drawn
  cases added with
  | postponed busy => simp [idle] at busy
  | accepted sp' sk' _ _ _ _ confined settled =>
    exact ⟨settled, fun tp mem old => old.keep confined (shared tp mem)⟩
  | rejected e sp' sk' _ _ _ _ confined settled =>
    exact ⟨settled, fun tp mem old => old.keep confined (shared tp mem)⟩

end Outcomes

theorem AddedTo.refl [Zero α] (inOrder : s.InOrder) : AddedTo s index c s :=
  ⟨inOrder, id, rfl, fun _ _ => Or.inl, rfl, fun _ _ => id⟩

/-! ## Creating -/

/-- Creating a constraint gives out an id and draws nothing. -/
theorem undrawn_of_create [Zero α] {kind : Kind} {ids : List EntityId}
    (created : Constraint.create sk kind ids = .ok (c, sk')) : sk.Undrawn sk' := by
  obtain ⟨_, _, _, _, rfl⟩ := Constraint.create_ok created
  exact ⟨rfl, rfl, Nat.le_succ _, fun _ => rfl⟩

/-- What was created on the sketch can be added to any space. -/
theorem newcomer_of_create {kind : Kind} {ids : List EntityId} (orderly : Orderly spaces sk)
    (created : Constraint.create sk kind ids = .ok (c, sk')) (index : Nat) :
    Newcomer spaces sk' index c := by
  have owned : ∀ h ∈ c.params, sk'.Owned c h := by
    intro h mem
    have before := Sketch.owned_of_create created mem
    obtain ⟨_, _, _, _, rfl⟩ := Constraint.create_ok created
    exact before
  obtain ⟨es, _, fits, eq, rfl⟩ := Constraint.create_ok created
  have number : c.id.number = sk.constraintCount + 1 := by rw [eq]
  refine ⟨fits, Nat.le_of_eq number, ?_, fun i d _ _ h mem _ => owned h mem⟩
  rintro i d ⟨sp, at', hd⟩ same
  have := orderly.issued sp (List.mem_of_getElem? at') d hd
  rw [same] at this
  omega

section Solve

variable [Zero α] [One α] [Add α] [Sub α] [Mul α] [Div α] [Neg α] [LT α] [LE α] [BEq α]
variable [DecidableLT α] [DecidableLE α] [Elementary α]

/-- **Adding a newcomer keeps a session in order, and a sound one sound**, whether it is accepted,
rejected or put off. -/
theorem addToSpace_spec (inOrder : s.InOrder) (new : Newcomer s.spaces s.sketch index c) :
    AddedTo s index c (s.addToSpace index c).2 := by
  unfold addToSpace space
  cases found : s.spaces[index]? with
  | none => exact .refl inOrder
  | some sp =>
    obtain ⟨pre, post, split, length, set⟩ := exists_set found
    -- the order of the spaces does not matter, so the one that is worked on may come first
    have sorted : (sp :: (pre ++ post)).Perm s.spaces := by
      rw [split]
      exact List.perm_middle.symm
    have orderly := inOrder.orderly.perm sorted
    have owned : ∀ tp ∈ pre ++ post, ∀ d ∈ tp.constraints, ∀ h ∈ c.params, h ∈ d.params →
        s.sketch.Owned c h := by
      intro tp mem d hd
      obtain ⟨i, ne, at'⟩ := exists_elsewhere sp mem
      rw [← split] at at'
      exact new.owned i d ⟨tp, at', hd⟩ (by omega)
    have unhosted : ∀ tp ∈ sp :: (pre ++ post), ∀ d ∈ tp.constraints, d.id ≠ c.id := by
      intro tp mem d hd
      obtain ⟨i, at'⟩ := List.mem_iff_getElem?.mp (sorted.mem_iff.mp mem)
      exact new.unhosted i d ⟨tp, at', hd⟩
    have added := Space.addConstraint_outcome (orderly.regular sp List.mem_cons_self) s.sketch
      new.fits (unhosted sp List.mem_cons_self)
    have kept := orderly.added new.fits new.issued unhosted owned added
    have hosted := hosted_of_added added
    have count := count_of_added added
    have stillOwned := fun d h => owned_of_added (d := d) (h := h) added
    have settled := fun idle => settled_of_added idle added orderly owned
    simp only
    generalize sp.addConstraint s.sketch c = r at kept hosted count stillOwned settled ⊢
    obtain ⟨result, sp', sk'⟩ := r
    simp only at kept hosted count stillOwned settled ⊢
    rw [set]
    have members : ∀ tp, tp ∈ pre ++ sp' :: post ↔ tp = sp' ∨ tp ∈ pre ++ post := by
      intro tp
      rw [List.perm_middle.mem_iff, List.mem_cons]
    have idleOf : s.inTransaction = false → sp.inTransaction = false := fun idle =>
      inOrder.idle idle sp (sorted.mem_iff.mp List.mem_cons_self)
    have inOrder' : InOrder { s with sketch := sk', spaces := pre ++ sp' :: post } := by
      refine ⟨kept.perm List.perm_middle, fun idle tp mem => ?_⟩
      rcases (members tp).mp mem with rfl | old
      · exact (settled (idleOf idle)).1.idle
      · exact inOrder.idle idle tp (sorted.mem_iff.mp (List.mem_cons_of_mem _ old))
    refine ⟨inOrder', fun sound => ⟨inOrder', fun idle tp mem => ?_⟩, rfl, ?_, count, stillOwned⟩
    · rcases (members tp).mp mem with rfl | old
      · exact (settled (idleOf idle)).1
      · refine (settled (idleOf idle)).2 tp old (sound.settled idle tp ?_)
        exact sorted.mem_iff.mp (List.mem_cons_of_mem _ old)
    · rintro i d ⟨tp, at', hd⟩
      rw [← set, List.getElem?_set] at at'
      by_cases same : index = i
      · rw [if_pos same] at at'
        split at at'
        next =>
          cases at'
          rcases hosted d hd with old | rfl
          · exact Or.inl ⟨sp, same ▸ found, old⟩
          · exact Or.inr ⟨same.symm, rfl, rfl⟩
        next => simp at at'
      · rw [if_neg same] at at'
        exact Or.inl ⟨tp, at', hd⟩

/-- **Creating a constraint and adding it keeps a session in order, and a sound one sound.** -/
theorem constrain_spec (inOrder : s.InOrder) (kind : Kind) (ids : List EntityId) :
    (s.constrain kind ids).2.InOrder ∧ (s.Sound → (s.constrain kind ids).2.Sound) := by
  unfold constrain
  split
  next => exact ⟨inOrder, id⟩
  next c sketch created =>
    have undrawn := undrawn_of_create created
    have added := addToSpace_spec (inOrder.of_undrawn undrawn)
      (newcomer_of_create inOrder.orderly created 0)
    exact ⟨added.inOrder, fun sound => added.sound (sound.of_undrawn undrawn)⟩

/-- Neither the order nor being settled has to do with decorations. -/
theorem constrainDecorated_spec (inOrder : s.InOrder) (kind : Kind) (ids : List EntityId) :
    (s.constrainDecorated kind ids).2.InOrder ∧
      (s.Sound → (s.constrainDecorated kind ids).2.Sound) := by
  unfold constrainDecorated
  split
  next => exact ⟨inOrder, id⟩
  next c sketch created =>
    have undrawn := undrawn_of_create created
    have undrawn' : s.sketch.Undrawn sketch.decorate.2 :=
      ⟨undrawn.entities, undrawn.entityCount, undrawn.constraintCount, undrawn.ids⟩
    have new := newcomer_of_create inOrder.orderly created 0
    have new' : Newcomer s.spaces sketch.decorate.2 0
        { c with decoration := some sketch.decorate.1 } :=
      ⟨new.fits, new.issued, new.unhosted, new.owned⟩
    have added := addToSpace_spec (inOrder.of_undrawn undrawn') new'
    exact ⟨added.inOrder, fun sound => added.sound (sound.of_undrawn undrawn')⟩

end Solve

end Session

end SketchSolver
