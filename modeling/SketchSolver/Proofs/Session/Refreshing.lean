import SketchSolver.Proofs.Session.Sweeping

/-!
# Preparing and solving a session

A session is `InOrder` at all times. It is `Sound` while moreover its spaces are
settled, which is asked for outside a transaction alone. Preparing for no entity
makes any session in order sound (`prepare_sound`), and so does ending a
transaction; solving keeps it sound.

Preparing for an entity that is not there is the exception. It stops at the first
space that has something to do, after that has lost its list (`prepare_missing`). If
this space hosts nothing, it has lost nothing, and the session is as sound as before
(`prepare_missing_sound`).

Preparing takes the spaces one after the other, each on the sketch that the one before
has numbered. That a later space does not undo what an earlier one has set up is where
`Orderly` is used: they number the drawn parameters alike, and share no others. The sweep
over the spaces has been treated in general; here it is applied to the operations.

Ending a transaction is the strongest of them. It asks for nothing but order: every space
is prepared, and even when one cannot be solved, its parameters are put back by the
snapshot of its own list, and the next one is prepared anew.

Dragging moves parameters, and `Undrawn` is what this and other small changes of the
sketch have in common: nothing is entered or taken off, and no id of a parameter changes.
Sound sessions stay sound under it, since being settled is about numbers and not values.
-/

namespace SketchSolver

/-- The sketch in which nothing was drawn, taken off or numbered. Values may have changed, and ids of
constraints may have been given out. -/
structure Sketch.Undrawn {α : Type} [Zero α] (sk sk' : Sketch α) : Prop where
  entities : sk'.entities = sk.entities
  entityCount : sk'.entityCount = sk.entityCount
  constraintCount : sk.constraintCount ≤ sk'.constraintCount
  ids : ∀ h, sk'.store.id h = sk.store.id h

namespace Session

open Space (Worked Settled)

variable {α : Type} [Zero α] {s : Session α} {dragged : Option EntityId} {id : EntityId}
variable {force rough : Bool}

omit [Zero α] in
/-- The invariant of a session, and no space puts off solving on its own. -/
structure InOrder (s : Session α) : Prop where
  orderly : Orderly s.spaces s.sketch
  idle : s.inTransaction = false → ∀ sp ∈ s.spaces, sp.inTransaction = false

/-- In order, and outside a transaction all spaces are settled. -/
structure Sound (s : Session α) : Prop extends InOrder s where
  settled : s.inTransaction = false → ∀ sp ∈ s.spaces, sp.Settled s.sketch

/-- What a sweep over the spaces leaves in order is in order as a session. -/
theorem InOrder.of_swept {spaces : List (Space α)} {sketch : Sketch α} (inOrder : s.InOrder)
    (swept : Swept s.spaces s.sketch spaces sketch) : { s with spaces, sketch }.InOrder :=
  ⟨swept.orderly inOrder.orderly, fun idle => swept.idle (inOrder.idle idle)⟩

/-- Values and ids of constraints do not matter to the order. -/
theorem InOrder.of_undrawn {sketch : Sketch α} (inOrder : s.InOrder)
    (undrawn : s.sketch.Undrawn sketch) : { s with sketch }.InOrder :=
  ⟨inOrder.orderly.of_entities undrawn.entities undrawn.entityCount undrawn.constraintCount,
    inOrder.idle⟩

/-- Being settled is about numbers of parameters and not about values. -/
theorem Sound.of_undrawn {sketch : Sketch α} (sound : s.Sound)
    (undrawn : s.sketch.Undrawn sketch) : { s with sketch }.Sound := by
  refine ⟨sound.toInOrder.of_undrawn undrawn, fun idle sp mem => ?_⟩
  refine (sound.settled idle sp mem).of_ids ?_ undrawn.ids
  unfold Sketch.params
  rw [undrawn.entities]

omit [Zero α] in
theorem InOrder.of_locked (inOrder : s.InOrder) (locked : Bool) : { s with locked }.InOrder :=
  ⟨inOrder.orderly, inOrder.idle⟩

omit [Zero α] in
/-- A failure only locks the session. -/
theorem lockOn_eq (s : Session α) (r : Option (Failure α) × List (Space α) × Sketch α) :
    ∃ locked, (s.lockOn r).2 = { s with spaces := r.2.1, sketch := r.2.2, locked } := by
  obtain ⟨_ | e, spaces, sketch⟩ := r
  · exact ⟨s.locked, rfl⟩
  · exact ⟨true, rfl⟩

omit [Zero α] in
/-- What holds of all members of a list still does when one of them is replaced by another such. -/
theorem forall_middle {p : Space α → Prop} {pre post : List (Space α)} {sp sp' : Space α}
    (all : ∀ tp ∈ pre ++ sp :: post, p tp) (new : p sp → p sp') :
    ∀ tp ∈ pre ++ sp' :: post, p tp := by
  intro tp mem
  rcases List.mem_append.mp mem with left | right
  · exact all tp (List.mem_append_left _ left)
  · rcases List.mem_cons.mp right with rfl | right
    · exact new (all sp (List.mem_append_right _ List.mem_cons_self))
    · exact all tp (List.mem_append_right _ (List.mem_cons_of_mem _ right))

/-! ## Preparing -/

section Prepare

variable {spaces : List (Space α)} {sk : Sketch α}

/-- Preparing a regular space is work on its parameters and its problem alone. -/
theorem prepare_works (regular : ∀ sp ∈ spaces, sp.Regular) (dragged : Option EntityId)
    (force : Bool) : ∀ sp ∈ spaces, ∀ sk₁,
      Worked sp sk₁ (sp.prepare sk₁ dragged force).2.1 (sp.prepare sk₁ dragged force).2.2 :=
  fun sp mem sk₁ => (Space.prepare_outcome (regular sp mem) sk₁ dragged force).worked

/-- Preparing can only fail for an entity that is not there. -/
theorem prepare_succeeds (regular : ∀ sp ∈ spaces, sp.Regular)
    (found : ∀ id, dragged = some id → sk.entity? id ≠ none) (force : Bool) :
    ∀ sp ∈ spaces, ∀ sk₁, sk₁ = { sk with store := sk₁.store } →
      (sp.prepare sk₁ dragged force).1 = .ok () := by
  intro sp mem sk₁ same
  have outcome := Space.prepare_outcome (regular sp mem) sk₁ dragged force
  generalize sp.prepare sk₁ dragged force = r at outcome
  cases outcome with
  | skipped => rfl
  | missing id _ is absent =>
    rw [same] at absent
    exact absurd absent (found id is)
  | built => rfl

/-- **Preparing makes a session sound**: for no entity whatever it was, and for one that is there if it
was sound before. -/
theorem prepare_sound (inOrder : s.InOrder)
    (found : ∀ id, dragged = some id → s.sketch.entity? id ≠ none)
    (before : dragged = none ∨ s.Sound) (force : Bool) :
    (s.prepare dragged force).1 = .ok () ∧ (s.prepare dragged force).2.Sound := by
  have works := prepare_works inOrder.orderly.regular dragged force
  have succeeds := prepare_succeeds inOrder.orderly.regular found force
  have swept := swept_onEach s.sketch works
  unfold prepare
  simp only
  rw [untilFailure_ok _ works succeeds]
  refine ⟨rfl, inOrder.of_swept swept, fun idle => ?_⟩
  refine settled_onEach (dragged = none) _ works (fun sp mem sk₁ same due => ?_)
    inOrder.orderly.compatible (before.imp_right fun sound => sound.settled idle)
  have regular := inOrder.orderly.regular sp mem
  exact (Space.prepare_outcome regular sk₁ dragged force).settled (inOrder.idle idle sp mem)
    regular due (succeeds sp mem sk₁ same)

/-- Preparing for no entity succeeds, and settles all spaces. -/
theorem prepare_none_sound (inOrder : s.InOrder) (force : Bool) :
    (s.prepare none force).1 = .ok () ∧ (s.prepare none force).2.Sound :=
  prepare_sound inOrder (fun id is => by simp at is) (Or.inl rfl) force

/-- Preparing for an entity that is there succeeds, too; spaces that skip it were settled before. -/
theorem prepare_some_sound (sound : s.Sound) (there : s.sketch.entity? id ≠ none) (force : Bool) :
    (s.prepare (some id) force).2.Sound := by
  refine (prepare_sound sound.toInOrder (fun id' is => ?_) (Or.inr sound) force).2
  cases is
  exact there

/-- Either all spaces skip the entity, or the first that does not fails, and those after it are not
reached. -/
theorem untilFailure_missing (absent : sk.entity? id = none) (force : Bool) :
    ∀ spaces : List (Space α),
    (spaces.find? (fun sp => !sp.skips (some id) force) = none ∧
      untilFailure (fun sp sk => sp.prepare sk (some id) force) spaces sk = (.ok (), spaces, sk)) ∨
    ∃ pre sp post, spaces = pre ++ sp :: post ∧
      spaces.find? (fun sp => !sp.skips (some id) force) = some sp ∧
      untilFailure (fun sp sk => sp.prepare sk (some id) force) spaces sk =
        (.error (.entityNotFound id), pre ++ sp.arranged (some id) [] :: post, sk)
  | [] => Or.inl ⟨rfl, rfl⟩
  | sp :: rest => by
    have prepare := Space.prepare_some sp sk id force
    rw [absent] at prepare
    unfold untilFailure
    by_cases skip : sp.skips (some id) force = true
    · -- it was prepared for the entity before, so the next one is asked
      rw [if_pos skip] at prepare
      rw [prepare, List.find?_cons_of_neg (by simp [skip])]
      simp only
      rcases untilFailure_missing absent force rest with
        ⟨none, eq⟩ | ⟨pre, tp, post, split, first, eq⟩
      · rw [eq]
        exact Or.inl ⟨none, rfl⟩
      · rw [eq]
        exact Or.inr ⟨sp :: pre, tp, post, by rw [split, List.cons_append], first, rfl⟩
    · rw [if_neg skip] at prepare
      rw [prepare]
      refine Or.inr ⟨[], sp, rest, rfl, ?_, rfl⟩
      rw [List.find?_cons_of_pos (by simpa using skip)]

/-- Preparing for an entity that is not there changes the first space that has something to do: it has
no parameters afterwards. -/
theorem prepare_missing (absent : s.sketch.entity? id = none) (force : Bool) :
    (s.spaces.find? (fun sp => !sp.skips (some id) force) = none ∧
      s.prepare (some id) force = (.ok (), s)) ∨
    ∃ pre sp post, s.spaces = pre ++ sp :: post ∧
      s.spaces.find? (fun sp => !sp.skips (some id) force) = some sp ∧
      s.prepare (some id) force = (.error (.entityNotFound id),
        { s with spaces := pre ++ sp.arranged (some id) [] :: post }) := by
  unfold prepare
  simp only
  rcases untilFailure_missing absent force s.spaces with
    ⟨none, eq⟩ | ⟨pre, sp, post, split, first, eq⟩
  · rw [eq]
    exact Or.inl ⟨none, rfl⟩
  · rw [eq]
    exact Or.inr ⟨pre, sp, post, split, first, rfl⟩

/-- Whatever preparing comes to, the session is in order. -/
theorem prepare_inOrder (inOrder : s.InOrder) (dragged : Option EntityId) (force : Bool) :
    (s.prepare dragged force).2.InOrder :=
  inOrder.of_swept (swept_untilFailure s.sketch (prepare_works inOrder.orderly.regular dragged force))

/-- A space that hosts nothing stays settled without its parameters. -/
theorem prepare_missing_sound (sound : s.Sound) (absent : s.sketch.entity? id = none)
    (nothing : ∀ sp, s.spaces.find? (fun sp => !sp.skips (some id) force) = some sp →
      s.inTransaction = false → sp.constraints = []) : (s.prepare (some id) force).2.Sound := by
  refine ⟨prepare_inOrder sound.toInOrder (some id) force, ?_⟩
  rcases prepare_missing absent force with ⟨_, eq⟩ | ⟨pre, sp, post, split, first, eq⟩
  · rw [eq]
    exact sound.settled
  · rw [eq]
    intro idle
    have before := sound.settled idle
    rw [split] at before
    refine forall_middle before fun settled => ?_
    have none := nothing sp first idle
    refine .of_empty settled.idle ?_ (settled.unloaded none) settled.needed
    show Space.sortConstraints sp.constraints = []
    rw [none]
    exact Space.sortConstraints_eq_self .nil

/-- **Outside a transaction a refresh makes the session sound**, whatever came before. -/
theorem refresh_sound (inOrder : s.InOrder) : s.refresh.1 = .ok () ∧ s.refresh.2.Sound := by
  unfold refresh
  by_cases busy : s.inTransaction = true
  · rw [if_pos busy]
    refine ⟨rfl, inOrder, fun idle => ?_⟩
    simp [busy] at idle
  · rw [if_neg busy]
    exact prepare_none_sound inOrder false

end Prepare

/-! ## Solving -/

section Solve

variable [One α] [Add α] [Sub α] [Mul α] [Div α] [Neg α] [LT α] [LE α] [BEq α]
variable [DecidableLT α] [DecidableLE α] [Elementary α]

theorem solve_inOrder (inOrder : s.InOrder) (rough : Bool) : (s.solve rough).2.InOrder := by
  unfold solve
  by_cases locked : s.locked = true
  · rw [if_pos locked]
    exact inOrder
  · rw [if_neg locked]
    have works : ∀ sp ∈ s.spaces, ∀ sk₁,
        Worked sp sk₁ (sp.solveNow sk₁ rough).2.1 (sp.solveNow sk₁ rough).2.2 :=
      fun sp _ sk₁ => (Space.solveNow_solved sp sk₁ rough).worked
    have swept := swept_onEach s.sketch works
    obtain ⟨locked', eq⟩ :=
      s.lockOn_eq (onEach (fun (sp : Space α) sk => sp.solveNow sk rough) s.spaces s.sketch)
    simp only
    rw [eq]
    exact (inOrder.of_swept swept).of_locked locked'

/-- Solving changes no number of a parameter that is listed. -/
theorem solve_sound (sound : s.Sound) (rough : Bool) : (s.solve rough).2.Sound := by
  refine ⟨solve_inOrder sound.toInOrder rough, ?_⟩
  unfold solve
  by_cases locked : s.locked = true
  · rw [if_pos locked]
    exact sound.settled
  · rw [if_neg locked]
    obtain ⟨locked', eq⟩ :=
      s.lockOn_eq (onEach (fun (sp : Space α) sk => sp.solveNow sk rough) s.spaces s.sketch)
    simp only
    rw [eq]
    intro idle
    refine settled_onEach False _ (fun sp _ sk₁ => (Space.solveNow_solved sp sk₁ rough).worked)
      (fun sp _ sk₁ _ settled => ?_) sound.orderly.compatible (Or.inr (sound.settled idle))
    exact (Space.solveNow_solved sp sk₁ rough).settled (settled.resolve_left id)

/-- **Ending a transaction makes the session sound**, whatever it was and whatever the spaces yield. -/
theorem finishTransaction_sound (orderly : Orderly s.spaces s.sketch) :
    s.finishTransaction.2.Sound := by
  have works : ∀ sp ∈ s.spaces, ∀ sk₁,
      Worked sp sk₁ (sp.finishTransaction sk₁).2.1 (sp.finishTransaction sk₁).2.2 :=
    fun sp mem sk₁ => (Space.finishTransaction_outcome (orderly.regular sp mem) sk₁).1
  have swept := swept_onEach s.sketch works
  -- every space is built in its turn, so it does not matter whether it was settled before
  have settled := settled_onEach True s.sketch works (fun sp mem sk₁ _ _ =>
    (Space.finishTransaction_outcome (orderly.regular sp mem) sk₁).2) orderly.compatible
    (Or.inl trivial)
  obtain ⟨locked, eq⟩ := lockOn_eq { s with inTransaction := false }
    (onEach (fun (sp : Space α) sk => sp.finishTransaction sk) s.spaces s.sketch)
  have sound : (lockOn { s with inTransaction := false }
      (onEach (fun (sp : Space α) sk => sp.finishTransaction sk) s.spaces s.sketch)).2.Sound := by
    rw [eq]
    exact ⟨⟨swept.orderly orderly, fun _ sp mem => (settled sp mem).idle⟩, fun _ => settled⟩
  unfold finishTransaction
  simp only
  split
  next ended =>
    rw [ended] at sound
    exact sound
  next ended =>
    rw [ended] at sound
    exact (refresh_sound sound.toInOrder).2

/-- A locked session is prepared from the start, so it need not have been sound. -/
theorem solveFine_sound_of_locked (inOrder : s.InOrder) (locked : s.locked = true) :
    s.solveFine.2.Sound := by
  -- it is prepared before it is solved, so it need not have been sound
  obtain ⟨ok, sound⟩ := prepare_none_sound (inOrder.of_locked false) true
  unfold solveFine
  rw [if_neg (by simp [locked])]
  split
  next eq =>
    rw [eq] at ok
    simp at ok
  next eq =>
    rw [eq] at sound
    exact solve_sound sound false

/-- A session that is not locked has nothing to solve finely. -/
theorem solveFine_of_unlocked (unlocked : s.locked = false) : s.solveFine = (.ok (), s) := by
  unfold solveFine
  rw [if_pos (by simp [unlocked])]

theorem solveFine_inOrder (inOrder : s.InOrder) : s.solveFine.2.InOrder := by
  cases locked : s.locked with
  | false =>
    rw [solveFine_of_unlocked locked]
    exact inOrder
  | true => exact (solveFine_sound_of_locked inOrder locked).toInOrder

/-- A sound session stays sound, locked or not. -/
theorem solveFine_sound (sound : s.Sound) : s.solveFine.2.Sound := by
  cases locked : s.locked with
  | false =>
    rw [solveFine_of_unlocked locked]
    exact sound
  | true => exact solveFine_sound_of_locked sound.toInOrder locked

/-! ## Dragging -/

omit [One α] [Sub α] [Mul α] [Div α] [Neg α] [LT α] [LE α] [BEq α] [DecidableLT α]
  [DecidableLE α] [Elementary α] in
theorem id_translate (shape : Shape) (store : Store α) (dx dy : α) (h : Handle) :
    (shape.translate store dx dy).id h = store.id h := by
  unfold Shape.translate
  generalize shape.points = points
  induction points generalizing store with
  | nil => rfl
  | cons p points ih =>
    rw [List.foldl_cons, ih]
    unfold Point.translate Point.moveTo
    rw [Store.id_setValue, Store.id_setValue]

omit [One α] [Sub α] [Mul α] [Div α] [Neg α] [LT α] [LE α] [BEq α] [DecidableLT α]
  [DecidableLE α] [Elementary α] in
/-- A sketch is moved by moving the shape of an entity. -/
theorem exists_translate {sk sk' : Sketch α} {dx dy : α}
    (moved : sk.translate id dx dy = .ok sk') :
    ∃ shape : Shape, sk' = { sk with store := shape.translate sk.store dx dy } := by
  unfold Sketch.translate Sketch.entity at moved
  cases found : sk.entity? id with
  | none =>
    rw [found] at moved
    simp [bind, Except.bind] at moved
  | some e =>
    rw [found] at moved
    simp only [bind, Except.bind, pure, Except.pure, Except.ok.injEq] at moved
    exact ⟨e.shape, moved.symm⟩

omit [One α] [Sub α] [Mul α] [Div α] [Neg α] [LT α] [LE α] [BEq α] [DecidableLT α]
  [DecidableLE α] [Elementary α] in
theorem undrawn_of_translate {sk sk' : Sketch α} {dx dy : α}
    (moved : sk.translate id dx dy = .ok sk') : sk.Undrawn sk' := by
  obtain ⟨shape, rfl⟩ := exists_translate moved
  exact ⟨rfl, rfl, Nat.le_refl _, fun h => id_translate shape sk.store dx dy h⟩

/-- A drag prepares, moves and solves; each keeps the order. -/
theorem drag_inOrder (inOrder : s.InOrder) (id : EntityId) (dx dy : α) :
    (s.drag id dx dy).2.InOrder := by
  have prepared := prepare_inOrder inOrder (some id) s.locked
  unfold drag
  split
  next eq =>
    rw [eq] at prepared
    exact prepared
  next s₁ eq =>
    rw [eq] at prepared
    split
    next => exact prepared
    next sketch moved =>
      exact solve_inOrder (prepared.of_undrawn (undrawn_of_translate moved)) true

/-- A drag keeps a session sound, unless it stops at a space that hosts something because the entity
is not there. -/
theorem drag_sound (sound : s.Sound) (dx dy : α)
    (nothing : s.sketch.entity? id = none →
      ∀ sp, s.spaces.find? (fun sp => !sp.skips (some id) s.locked) = some sp →
        s.inTransaction = false → sp.constraints = []) : (s.drag id dx dy).2.Sound := by
  have prepared : (s.prepare (some id) s.locked).2.Sound := by
    by_cases absent : s.sketch.entity? id = none
    · exact prepare_missing_sound sound absent (nothing absent)
    · exact prepare_some_sound sound absent s.locked
  unfold drag
  split
  next eq =>
    rw [eq] at prepared
    exact prepared
  next s₁ eq =>
    rw [eq] at prepared
    split
    next => exact prepared
    next sketch moved =>
      exact solve_sound (prepared.of_undrawn (undrawn_of_translate moved)) true

end Solve

end Session

end SketchSolver
