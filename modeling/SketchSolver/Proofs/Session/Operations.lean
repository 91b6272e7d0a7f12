import SketchSolver.Proofs.Session.Removing

/-!
# Runs of a session

A run is any sequence of operations on a session, failed ones among them. Outside a
transaction every space should be matched to its constraints after each of them
(`InStep`). Three operations break this (`Slips`): clearing, removing constraints of which
one is not found after others were, and preparing or dragging for an entity that is
not there. The main statement `inStep_iff` says that nothing else does, and that these
always do. What has slipped is put right by the next refresh (`inStep_refresh`). Both are
proved later; here are the operations, and one step of them.

An operation is the constructor with its arguments, and `Operation.apply` is the function
of the session that goes by this name, with its result left aside: whether it failed does
not matter to the state that it leaves. Drawing takes any shape. Its parameters may be new,
as they are for a shape that is given by values, or those of other entities, or some of
each; nothing is assumed about which, here or in what follows. After drawing the session is
refreshed, because nothing else tells the spaces of new parameters.

Constraints that are handed to an operation must be `Welcome`: created on the sketch, and
hosted by no space. This is what owning a constraint comes to.

Each step is proved twice. Order is kept by every operation, also by one that slips
(`inOrder_apply`), and soundness by those that do not (`sound_apply`). The one case with an
argument is an interrupted removal: outside a transaction it has not slipped only if the
first constraint was not found, and then nothing has changed.
-/

namespace SketchSolver

variable {α : Type}

/-- What is drawn: a shape by the values of its parameters, all of them new, or any shape, some of
whose parameters may be new and the others those of any entities, or of none. -/
inductive Figure (α : Type) where
  | point (x y : α)
  | segment (x1 y1 x2 y2 : α)
  | circle (x y radius : α)
  | arc (x1 y1 x2 y2 cx cy : α)
  | shaped (fresh : List (String × α)) (shape : Shape)

/-- The sketch with one more shape. -/
def Sketch.draw (sk : Sketch α) : Figure α → Sketch α
  | .point x y => (sk.addPoint x y).2
  | .segment x1 y1 x2 y2 => (sk.addSegment x1 y1 x2 y2).2
  | .circle x y radius => (sk.addCircle x y radius).2
  | .arc x1 y1 x2 y2 cx cy => (sk.addArc x1 y1 x2 y2 cx cy).2
  | .shaped fresh shape =>
    let store := fresh.foldl (fun s (symbol, value) => (s.add symbol value).2) sk.store
    ({ sk with store }.enter shape).2

/-- An operation on a session. `draw` refreshes the session as well; `create` makes a constraint that
is added later, if at all. -/
inductive Operation (α : Type) where
  | configure (settings : Settings α)
  | addSpace
  | reset
  | clear
  | startTransaction
  | finishTransaction
  | refresh
  | draw (figure : Figure α)
  | create (kind : Kind) (ids : List EntityId)
  | add (index : Nat) (c : Constraint)
  | addConstraints (cs : List Constraint)
  | constrain (kind : Kind) (ids : List EntityId)
  | constrainDecorated (kind : Kind) (ids : List EntityId)
  | removeConstraints (ids : List ConstraintId)
  | removeEntities (ids : List EntityId)
  | solve (rough : Bool)
  | solveFine
  | prepare (dragged : Option EntityId) (force : Bool)
  | drag (id : EntityId) (dx dy : α)
  | endDrag
  | restore (records : List Record)

namespace Session

variable [Zero α]

/-- Outside a transaction every space is matched to its constraints. -/
def InStep (s : Session α) : Prop :=
  s.inTransaction = false → ∀ sp ∈ s.spaces, sp.Matched s.sketch.store

omit [Zero α] in
/-- Preparing for the entity stops at a space that hosts constraints, because the entity is not there. -/
def Strands (s : Session α) (id : EntityId) (force : Bool) : Prop :=
  s.sketch.entity? id = none ∧
    ∃ sp, s.spaces.find? (fun sp => !sp.skips (some id) force) = some sp ∧ sp.constraints ≠ []

end Session

namespace Operation

section Apply

variable [Zero α] [One α] [Add α] [Sub α] [Mul α] [Div α] [Neg α] [LT α] [LE α] [BEq α]
variable [DecidableLT α] [DecidableLE α] [Elementary α]

/-- The session after an operation, which may have failed. -/
def apply (op : Operation α) (s : Session α) : Session α :=
  match op with
  | configure settings => s.withSettings settings
  | addSpace => s.addSpace.2
  | reset => s.reset
  | clear => s.clear
  | startTransaction => s.startTransaction
  | finishTransaction => s.finishTransaction.2
  | refresh => s.refresh.2
  | draw figure => { s with sketch := s.sketch.draw figure }.refresh.2
  | create kind ids =>
    match Constraint.create s.sketch kind ids with
    | .error _ => s
    | .ok (_, sketch) => { s with sketch }
  | add index c => (s.addToSpace index c).2
  | addConstraints cs => (s.addConstraints cs).2
  | constrain kind ids => (s.constrain kind ids).2
  | constrainDecorated kind ids => (s.constrainDecorated kind ids).2
  | removeConstraints ids => (s.removeConstraints ids).2
  | removeEntities ids => (s.removeEntities ids).2
  | solve rough => (s.solve rough).2
  | solveFine => s.solveFine.2
  | prepare dragged force => (s.prepare dragged force).2
  | drag id dx dy => (s.drag id dx dy).2
  | endDrag => s.endDrag.2
  | restore records => (s.restore records).2

end Apply

/-- The constraints that are handed to an operation were created on the sketch, and no space hosts
them. -/
def Welcome (op : Operation α) (s : Session α) : Prop :=
  match op with
  | add index c => Session.Newcomer s.spaces s.sketch index c
  | addConstraints cs =>
    (∀ c ∈ cs, Session.Newcomer s.spaces s.sketch 0 c) ∧ (cs.map (·.id)).Nodup
  | _ => True

/-- The operation leaves a problem or a list of parameters that belongs to other constraints. -/
def Slips (op : Operation α) (s : Session α) : Prop :=
  s.inTransaction = false ∧
    match op with
    | clear => ∃ i c, Session.Hosts s.spaces i c
    | removeConstraints ids =>
      (∃ i c, Session.Hosts s.spaces i c ∧ ids.head? = some c.id) ∧ ¬ s.Removable ids
    | prepare (some id) force => s.Strands id force
    | drag id _ _ => s.Strands id s.locked
    | _ => False

end Operation

/-! ## Drawing -/

namespace Sketch

variable {sk : Sketch α}

/-- The entities that are entered have the next ids. -/
theorem entities_enter (sk : Sketch α) (shape : Shape) : ∃ new : List Entity,
    (sk.enter shape).2.entities = sk.entities ++ new ∧
      new.map (·.id) = (List.range (shape.parts.length + 1)).map fun i =>
        ⟨sk.entityCount + i + 1⟩ := by
  refine ⟨_, List.append_assoc _ _ _, ?_⟩
  refine List.ext_getElem (by simp) fun i bound _ => ?_
  rw [List.length_map, List.length_append, List.length_mapIdx, List.length_singleton] at bound
  rw [List.getElem_map, List.getElem_map, List.getElem_range]
  by_cases part : i < shape.parts.length
  · rw [List.getElem_append_left (by simpa using part), List.getElem_mapIdx]
  · -- after its points the shape itself
    obtain rfl : i = shape.parts.length := by omega
    rw [List.getElem_append_right (by simp)]
    simp

/-- What is entered has ids above those that were given out. -/
theorem Distinct.enter (distinct : sk.Distinct) (shape : Shape) : (sk.enter shape).2.Distinct := by
  obtain ⟨new, eq, ids⟩ := entities_enter sk shape
  -- new ids are above the counter from before and not above the one after
  have bounds : ∀ id ∈ new.map (·.id), sk.entityCount < id.number ∧
      id.number ≤ (sk.enter shape).2.entityCount := by
    intro id mem
    rw [ids] at mem
    obtain ⟨i, hi, rfl⟩ := List.mem_map.mp mem
    have := List.mem_range.mp hi
    show sk.entityCount < sk.entityCount + i + 1 ∧
      sk.entityCount + i + 1 ≤ sk.entityCount + shape.parts.length + 1
    omega
  refine ⟨?_, fun e he => ?_⟩
  · rw [eq, List.map_append, List.nodup_append]
    refine ⟨distinct.nodup, ?_, fun x hx y hy same => ?_⟩
    · rw [ids]
      refine List.Nodup.map (fun i j same => ?_) List.nodup_range
      have := congrArg EntityId.number same
      simp only at this
      omega
    · -- ids that were issued are below the new ones
      obtain ⟨e, he, rfl⟩ := List.mem_map.mp hx
      have old := distinct.issued e he
      have := (bounds y hy).1
      rw [← same] at this
      omega
  · rw [eq, List.mem_append] at he
    rcases he with old | late
    · have := distinct.issued e old
      show e.id.number ≤ sk.entityCount + shape.parts.length + 1
      omega
    · exact (bounds e.id (List.mem_map_of_mem late)).2

/-- Whatever is drawn, a shape is entered, and otherwise only the parameters change. -/
theorem draw_eq (sk : Sketch α) (figure : Figure α) :
    ∃ store shape, sk.draw figure = ({ sk with store }.enter shape).2 := by
  cases figure with
  | point => exact ⟨_, _, rfl⟩
  | segment => exact ⟨_, _, rfl⟩
  | circle => exact ⟨_, _, rfl⟩
  | arc => exact ⟨_, _, rfl⟩
  | shaped => exact ⟨_, _, rfl⟩

end Sketch

namespace Session

variable {s : Session α}

/-- Drawing registers nothing and takes nothing off, and an old entity stays where it is. -/
theorem Orderly.draw {spaces : List (Space α)} {sk : Sketch α} (orderly : Orderly spaces sk)
    (figure : Figure α) : Orderly spaces (sk.draw figure) := by
  obtain ⟨store, shape, eq⟩ := sk.draw_eq figure
  have same : Orderly spaces { sk with store } := orderly.of_entities rfl rfl (Nat.le_refl _)
  obtain ⟨new, entities, _⟩ := { sk with store }.entities_enter shape
  rw [eq]
  refine same.of_fewer (forall₂_refl spaces) (same.entities.enter shape) (Nat.le_refl _) ?_
  rintro sp _ c _ h ⟨e, he, anchored⟩
  refine ⟨e, ?_, anchored⟩
  rw [entities]
  exact List.mem_append_left _ he

/-! ## One step -/

variable [Zero α]

omit [Zero α] in
/-- Settings have nothing to do with what is hosted. -/
theorem withSettings_inOrder (inOrder : s.InOrder) (settings : Settings α) :
    (s.withSettings settings).InOrder := by
  refine ⟨inOrder.orderly.of_spaces (forall₂_map fun sp => ⟨rfl, fun _ hc => hc, id, id⟩),
    fun idle sp mem => ?_⟩
  obtain ⟨sp, old, rfl⟩ := List.mem_map.mp mem
  exact inOrder.idle idle sp old

theorem withSettings_sound (sound : s.Sound) (settings : Settings α) :
    (s.withSettings settings).Sound := by
  refine ⟨withSettings_inOrder sound.toInOrder settings, fun idle sp mem => ?_⟩
  obtain ⟨sp, old, rfl⟩ := List.mem_map.mp mem
  have settled := sound.settled idle sp old
  exact ⟨settled.idle, settled.equations, settled.list, settled.numbered, settled.needed⟩

/-- A session with one new space is sound. -/
theorem sound_of_new {settings : Settings α} (only : s.spaces = [Space.create 0 settings])
    (distinct : s.sketch.Distinct) : s.Sound := by
  have orderly : Orderly [] s.sketch := ⟨distinct, by simp, by simp, by simp, .nil⟩
  have members : ∀ sp ∈ s.spaces, sp = Space.create 0 settings := by simp [only]
  refine ⟨⟨?_, fun _ sp mem => ?_⟩, fun _ sp mem => ?_⟩
  · rw [only]
    exact orderly.append_empty rfl rfl
  · rw [members sp mem]
    rfl
  · rw [members sp mem]
    exact .of_empty rfl rfl rfl fun h mem => absurd mem List.not_mem_nil

/-- A new session has nothing to settle. -/
theorem create_sound {sketch : Sketch α} (distinct : sketch.Distinct) (settings : Settings α) :
    (create sketch settings).Sound :=
  sound_of_new (s := create sketch settings) rfl distinct

/-- After all spaces were thrown away, there is nothing to settle. -/
theorem reset_sound (distinct : s.sketch.Distinct) : s.reset.Sound :=
  sound_of_new (s := s.reset) rfl distinct

/-- A drawn entity makes spaces unsettled only until the refresh. -/
theorem draw_sound (inOrder : s.InOrder) (figure : Figure α) :
    ({ s with sketch := s.sketch.draw figure } : Session α).refresh.2.Sound := by
  have drawn : ({ s with sketch := s.sketch.draw figure } : Session α).InOrder :=
    ⟨inOrder.orderly.draw figure, inOrder.idle⟩
  exact (refresh_sound drawn).2

omit [Zero α] in
/-- What is added together with others is a batch for the first space. -/
theorem newcomers_of_welcome {cs : List Constraint}
    (new : ∀ c ∈ cs, Newcomer s.spaces s.sketch 0 c) (distinct : (cs.map (·.id)).Nodup) :
    Newcomers s.spaces s.sketch (cs.map fun c => (0, c)) := by
  refine ⟨fun p mem => ?_, ?_⟩
  · obtain ⟨c, hc, rfl⟩ := List.mem_map.mp mem
    exact new c hc
  · refine List.pairwise_map.mpr ((List.pairwise_map.mp distinct).imp fun ne => ⟨ne, fun away => ?_⟩)
    exact absurd rfl away

omit [Zero α] in
/-- A space that is not stranded hosts nothing. -/
theorem nothing_of_not_strands {id : EntityId} {force : Bool}
    (safe : ¬ (s.inTransaction = false ∧ s.Strands id force))
    (absent : s.sketch.entity? id = none) : ∀ sp,
      s.spaces.find? (fun sp => !sp.skips (some id) force) = some sp →
        s.inTransaction = false → sp.constraints = [] := by
  intro sp first idle
  by_contra hosts
  exact safe ⟨idle, absent, sp, first, hosts⟩

end Session

namespace Operation

open Session

variable [Zero α] [One α] [Add α] [Sub α] [Mul α] [Div α] [Neg α] [LT α] [LE α] [BEq α]
variable [DecidableLT α] [DecidableLE α] [Elementary α] {op : Operation α} {s : Session α}

/-- **An operation keeps a session in order**, whether it slips or not. -/
theorem inOrder_apply (inOrder : s.InOrder) (welcome : op.Welcome s) : (op.apply s).InOrder := by
  cases op with
  | configure settings => exact withSettings_inOrder inOrder settings
  | addSpace => exact (Grown.addSpace s).inOrder inOrder
  | reset => exact (reset_sound inOrder.orderly.entities).toInOrder
  | clear => exact clear_inOrder inOrder
  | startTransaction => exact startTransaction_inOrder inOrder
  | finishTransaction => exact (finishTransaction_sound inOrder.orderly).toInOrder
  | refresh => exact (refresh_sound inOrder).2.toInOrder
  | draw figure => exact (draw_sound inOrder figure).toInOrder
  | create kind ids =>
    unfold apply
    simp only
    split
    next => exact inOrder
    next created => exact inOrder.of_undrawn (undrawn_of_create created)
  | add index c => exact (addToSpace_spec inOrder welcome).inOrder
  | addConstraints cs =>
    exact (addBatch_sound inOrder (newcomers_of_welcome welcome.1 welcome.2)).toInOrder
  | constrain kind ids => exact (constrain_spec inOrder kind ids).1
  | constrainDecorated kind ids => exact (constrainDecorated_spec inOrder kind ids).1
  | removeConstraints ids => exact removeConstraints_inOrder inOrder ids
  | removeEntities ids => exact (removeEntities_sound inOrder ids).toInOrder
  | solve rough => exact solve_inOrder inOrder rough
  | solveFine => exact solveFine_inOrder inOrder
  | prepare dragged force => exact prepare_inOrder inOrder dragged force
  | drag id dx dy => exact drag_inOrder inOrder id dx dy
  | endDrag => exact solve_inOrder inOrder false
  | restore records => exact (restore_spec inOrder records).1

/-- **An operation that does not slip keeps a session sound.** -/
theorem sound_apply (sound : s.Sound) (welcome : op.Welcome s) (safe : ¬ op.Slips s) :
    (op.apply s).Sound := by
  have inOrder := sound.toInOrder
  cases op with
  | configure settings => exact withSettings_sound sound settings
  | addSpace => exact (Grown.addSpace s).sound sound
  | reset => exact reset_sound inOrder.orderly.entities
  | clear =>
    refine clear_sound sound fun idle sp mem => ?_
    by_contra hosts
    obtain ⟨c, hc⟩ := List.exists_mem_of_ne_nil _ hosts
    obtain ⟨i, at'⟩ := List.mem_iff_getElem?.mp mem
    exact safe ⟨idle, i, c, sp, at', hc⟩
  | startTransaction =>
    refine ⟨startTransaction_inOrder inOrder, fun idle => ?_⟩
    simp [apply, Session.startTransaction] at idle
  | finishTransaction => exact finishTransaction_sound inOrder.orderly
  | refresh => exact (refresh_sound inOrder).2
  | draw figure => exact draw_sound inOrder figure
  | create kind ids =>
    unfold apply
    simp only
    split
    next => exact sound
    next created => exact sound.of_undrawn (undrawn_of_create created)
  | add index c => exact (addToSpace_spec inOrder welcome).sound sound
  | addConstraints cs => exact addBatch_sound inOrder (newcomers_of_welcome welcome.1 welcome.2)
  | constrain kind ids => exact (constrain_spec inOrder kind ids).2 sound
  | constrainDecorated kind ids => exact (constrainDecorated_spec inOrder kind ids).2 sound
  | removeConstraints ids =>
    cases found : detachEach ids s with
    | mk result s' =>
      cases result with
      | ok removed => exact removeConstraints_sound inOrder found
      | error e =>
        obtain ⟨gone, freed⟩ := detachEach_freed ids inOrder
        have kept : ¬ s.Removable ids := by
          rw [← detachEach_ok_iff inOrder, found]
          simp
        show (s.removeConstraints ids).2.Sound
        rw [removeConstraints_of_error found]
        rw [found] at freed
        refine ⟨freed.inOrder, fun idle => ?_⟩
        rw [freed.inTransaction] at idle
        -- outside a transaction nothing was taken out before the failure
        cases ids with
        | nil =>
          unfold detachEach at found
          simp at found
        | cons id ids =>
          rw [detachEach_absent ids fun i d hd same => safe ⟨idle, ⟨i, d, hd, ?_⟩, kept⟩] at found
          · cases found
            exact sound.settled idle
          · rw [← same]
            rfl
  | removeEntities ids => exact removeEntities_sound inOrder ids
  | solve rough => exact solve_sound sound rough
  | solveFine => exact solveFine_sound sound
  | prepare dragged force =>
    cases dragged with
    | none => exact (prepare_none_sound inOrder force).2
    | some id =>
      by_cases absent : s.sketch.entity? id = none
      · exact prepare_missing_sound sound absent (nothing_of_not_strands safe absent)
      · exact prepare_some_sound sound absent force
  | drag id dx dy => exact drag_sound sound dx dy (nothing_of_not_strands safe)
  | endDrag => exact solve_sound sound false
  | restore records => exact (restore_spec inOrder records).2 sound

end Operation

end SketchSolver
