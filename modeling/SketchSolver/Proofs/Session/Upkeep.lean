import SketchSolver.Proofs.Session.Operations
import SketchSolver.Proofs.Space.Upkeep

/-!
# What a session keeps

What prepares, adds, takes out or enters something leaves the lock of a session alone,
and whether it puts off solving too (`Session.Kept`). Both change only where spaces are
solved and where a transaction begins or ends. So the history of the lock can be told
from solves alone, and that is what the theory of locking does.

All spaces are regular at all times (`regular_apply`), if only the constraints that
are handed to the session fit. A space that is regular can always be prepared
(`prepare_of_regular`), and so preparing is never what makes an operation fail, except
for a dragged entity that is not there.

`Kept` is a relation between the session before and the session after. It composes, and
it passes through folds over lists (`Kept.foldl`), which is how entities are removed and
spaces added. For operations on all spaces it is lifted from `Space.Kept` member by member
(`Kept.of_spaces`). Operations that solve do not keep the lock, and for them regularity is
followed on its own: solving neither hosts nor marks anything, and an addition that is
rejected clears its mark.

No assumption is made about the sketch or its books. This theory is about any session
whatever, also one that was reset or whose sketch was changed by others, and therefore the
only thing that it can promise about constraints is that they fit.
-/

namespace SketchSolver

variable {α : Type}

namespace Session

variable {s s' s'' : Session α} {spaces : List (Space α)} {sk : Sketch α}

/-- The constraints of every space fit and take part. -/
def Regular (s : Session α) : Prop := ∀ sp ∈ s.spaces, sp.Regular

/-- No space puts off solving. -/
def Idle (s : Session α) : Prop := ∀ sp ∈ s.spaces, sp.inTransaction = false

/-- The session is locked as before and puts off solving as before, and it is regular and idle if it
was. -/
structure Kept (s s' : Session α) : Prop where
  locked : s'.locked = s.locked
  inTransaction : s'.inTransaction = s.inTransaction
  regular : s.Regular → s'.Regular
  idle : s.Idle → s'.Idle

namespace Kept

theorem refl (s : Session α) : Kept s s := ⟨rfl, rfl, id, id⟩

theorem trans (h₁ : Kept s s') (h₂ : Kept s' s'') : Kept s s'' :=
  ⟨h₂.locked.trans h₁.locked, h₂.inTransaction.trans h₁.inTransaction, h₂.regular ∘ h₁.regular,
    h₂.idle ∘ h₁.idle⟩

/-- What every step keeps the whole fold keeps. -/
theorem foldl {β : Type} {step : Session α → β → Session α} (keeps : ∀ s x, Kept s (step s x)) :
    ∀ (xs : List β) (s : Session α), Kept s (xs.foldl step s)
  | [], s => .refl s
  | x :: xs, s => (keeps s x).trans (foldl keeps xs (step s x))

/-- The flags of a session are not touched when its spaces change. -/
theorem of_spaces {sketch : Sketch α} (each : List.Forall₂ Space.Kept s.spaces spaces) :
    Kept s { s with spaces, sketch } := by
  refine ⟨rfl, rfl, fun regular sp' mem => ?_, fun idle sp' mem => ?_⟩
  · obtain ⟨sp, old, kept⟩ := exists_of_forall₂ each mem
    exact kept.regular (regular sp old)
  · obtain ⟨sp, old, kept⟩ := exists_of_forall₂ each mem
    exact kept.inTransaction.trans (idle sp old)

theorem of_sketch (s : Session α) (sketch : Sketch α) : Kept s { s with sketch } :=
  ⟨rfl, rfl, id, id⟩

/-- Spaces that are new, regular and idle do not matter. -/
theorem of_new (each : ∀ sp ∈ spaces, sp ∈ s.spaces ∨ sp.Regular ∧ sp.inTransaction = false) :
    Kept s { s with spaces } :=
  ⟨rfl, rfl, fun regular sp mem => (each sp mem).elim (regular sp) And.left,
    fun idle sp mem => (each sp mem).elim (idle sp) And.right⟩

end Kept

/-- A new space hosts nothing, so it is regular. -/
theorem create_regular (index : Nat) (settings : Settings α) :
    (Space.create index settings).Regular :=
  ⟨fun _ mem => absurd mem List.not_mem_nil, rfl⟩

/-- A new session has one space, which is regular. -/
theorem regular_create (sketch : Sketch α) (settings : Settings α) :
    (create sketch settings).Regular := by
  intro sp mem
  rw [List.mem_singleton.mp mem]
  exact create_regular 0 settings

/-! ## Spaces -/

theorem withSettings_kept (s : Session α) (settings : Settings α) :
    Kept s (s.withSettings settings) := by
  have each : List.Forall₂ Space.Kept s.spaces (s.spaces.map fun sp => sp.withSettings settings) :=
    List.forall₂_map_right_iff.mpr <| List.forall₂_same.mpr fun _ _ =>
      ⟨rfl, fun regular => ⟨regular.fits, regular.unmarked⟩⟩
  have kept : Kept s { s with
      spaces := s.spaces.map fun sp => sp.withSettings settings, sketch := s.sketch } :=
    .of_spaces each
  exact ⟨rfl, rfl, kept.regular, kept.idle⟩

theorem addSpace_kept (s : Session α) : Kept s s.addSpace.2 := by
  refine .of_new fun sp mem => (List.mem_append.mp mem).imp_right fun new => ?_
  rw [List.mem_singleton.mp new]
  exact ⟨create_regular s.spaces.length s.settings, rfl⟩

theorem addSpacesUpTo_kept (s : Session α) (index : Nat) : Kept s (s.addSpacesUpTo index) :=
  .foldl (fun s _ => addSpace_kept s) _ s

/-- Throwing all spaces away changes neither the lock nor whether solving is put off. -/
theorem reset_kept (s : Session α) : Kept s s.reset := by
  refine .of_new fun sp mem => Or.inr ?_
  rw [List.mem_singleton.mp mem]
  exact ⟨create_regular 0 s.settings, rfl⟩

theorem clearSpaces_kept : ∀ (spaces : List (Space α)) (sk : Sketch α),
    List.Forall₂ Space.Kept spaces (clearSpaces spaces sk).1
  | [], _ => .nil
  | sp :: rest, sk => .cons (Space.clear_kept sp sk) (clearSpaces_kept rest _)

theorem clear_kept (s : Session α) : Kept s s.clear := .of_spaces (clearSpaces_kept s.spaces s.sketch)

theorem startTransaction_regular (regular : s.Regular) : s.startTransaction.Regular := by
  intro sp' mem
  obtain ⟨sp, old, rfl⟩ := List.mem_map.mp mem
  exact ⟨(regular sp old).fits, (regular sp old).unmarked⟩

/-! ## Taking out -/

/-- Taking a constraint out of a space changes this space alone. -/
theorem detachFrom_kept (id : ConstraintId) : ∀ (spaces : List (Space α)) (sk : Sketch α),
    List.Forall₂ Space.Kept spaces (detachFrom id spaces sk).2.1
  | [], _ => .nil
  | sp :: rest, sk => by
    unfold detachFrom
    split
    next =>
      exact .cons (Space.removeConstraint_kept sp sk id)
        (List.forall₂_same.mpr fun tp _ => .refl tp)
    next => exact .cons (.refl sp) (detachFrom_kept id rest sk)

/-- Taking a constraint out of a session is no solve. -/
theorem detach_kept (s : Session α) (id : ConstraintId) : Kept s (s.detach id).2 :=
  .of_spaces (detachFrom_kept id s.spaces s.sketch)

theorem detachEach_kept : ∀ (ids : List ConstraintId) (s : Session α),
    Kept s (detachEach ids s).2
  | [], s => .refl s
  | id :: ids, s => by
    have first := detach_kept s id
    unfold detachEach
    split
    next eq =>
      rw [eq] at first
      exact first
    next s₁ eq =>
      rw [eq] at first
      have later := detachEach_kept ids s₁
      split
      next eq' =>
        rw [eq'] at later
        exact first.trans later
      next eq' =>
        rw [eq'] at later
        exact first.trans later

/-- Removing an entity takes constraints out, and then changes the sketch. -/
theorem removeEntity_kept (s : Session α) (id : EntityId) : Kept s (s.removeEntity id) := by
  unfold removeEntity
  split
  next => exact .refl s
  next =>
    split
    next => exact .refl s
    next => exact (Kept.foldl (fun s c => detach_kept s c) _ s).trans (.of_sketch _ _)

/-- Rebuilding adds empty spaces and creates constraints. -/
theorem rebuild_kept : ∀ (records : List Record) (s : Session α), Kept s (rebuild records s).2
  | [], s => .refl s
  | r :: rest, s => by
    have spaces := addSpacesUpTo_kept s (r.space.getD 0)
    unfold rebuild
    simp only
    split
    next => exact spaces
    next c sketch _ =>
      have later := rebuild_kept rest { s.addSpacesUpTo (r.space.getD 0) with sketch }
      split
      next eq =>
        rw [eq] at later
        exact (spaces.trans (.of_sketch _ sketch)).trans later
      next eq =>
        rw [eq] at later
        exact (spaces.trans (.of_sketch _ sketch)).trans later

/-! ## One space after the other -/

/-- Every space is related to what an operation on all spaces makes of it. -/
theorem forall₂_onEach {β : Type} {R : Space α → Space α → Prop} {act : SpaceAction α β}
    (each : ∀ sp sk, R sp (act sp sk).2.1) : ∀ (spaces : List (Space α)) (sk : Sketch α),
    List.Forall₂ R spaces (onEach act spaces sk).2.1
  | [], _ => .nil
  | sp :: rest, sk => by
    rw [onEach_cons]
    exact .cons (each sp sk) (forall₂_onEach each rest _)

/-- Spaces that are not reached are kept as they are. -/
theorem untilFailure_kept {act : SpaceAction α Unit} (each : ∀ sp sk, Space.Kept sp (act sp sk).2.1) :
    ∀ (spaces : List (Space α)) (sk : Sketch α),
    List.Forall₂ Space.Kept spaces (untilFailure act spaces sk).2.1
  | [], _ => .nil
  | sp :: rest, sk => by
    have first := each sp sk
    unfold untilFailure
    split
    next eq =>
      rw [eq] at first
      exact .cons first (List.forall₂_same.mpr fun tp _ => .refl tp)
    next eq =>
      rw [eq] at first
      exact .cons first (untilFailure_kept each rest _)

variable [Zero α]

theorem prepare_kept (s : Session α) (dragged : Option EntityId) (force : Bool) :
    Kept s (s.prepare dragged force).2 :=
  .of_spaces (untilFailure_kept (fun sp sk => Space.prepare_kept sp sk dragged force) s.spaces s.sketch)

theorem refresh_kept (s : Session α) : Kept s s.refresh.2 := by
  unfold refresh
  split
  next => exact .refl s
  next => exact prepare_kept s none false

omit [Zero α] in
/-- Spaces stay regular under an operation that keeps each of them so. -/
theorem regular_onEach {β : Type} {act : SpaceAction α β}
    (each : ∀ sp sk, sp.Regular → (act sp sk).2.1.Regular) (regular : ∀ sp ∈ spaces, sp.Regular) :
    ∀ sp ∈ (onEach act spaces sk).2.1, sp.Regular := by
  intro sp' mem
  obtain ⟨sp, old, keeps⟩ := exists_of_forall₂
    (forall₂_onEach (R := fun sp sp' => sp.Regular → sp'.Regular) each spaces sk) mem
  exact keeps (regular sp old)

/-- A value that no space changes in its turn is the same in the end. -/
theorem value_onEach {β : Type} {act : SpaceAction α β} {h : Handle} :
    ∀ {spaces : List (Space α)} (sk : Sketch α),
    (∀ sp ∈ spaces, ∀ sk₁, (act sp sk₁).2.2.store.value h = sk₁.store.value h) →
    (onEach act spaces sk).2.2.store.value h = sk.store.value h
  | [], _, _ => rfl
  | sp :: rest, sk, each => by
    rw [onEach_cons]
    refine (value_onEach _ fun tp mem => each tp (List.mem_cons_of_mem _ mem)).trans ?_
    exact each sp List.mem_cons_self sk

/-- **A regular session can be prepared**, for no entity or for one that is there. Preparing moves
nothing. -/
theorem prepare_of_regular {dragged : Option EntityId} (regular : s.Regular)
    (there : ∀ id, dragged = some id → s.sketch.entity? id ≠ none) (force : Bool) :
    ∃ s', s.prepare dragged force = (.ok (), s') ∧ s'.sketch.entities = s.sketch.entities ∧
      ∀ h, s'.sketch.store.value h = s.sketch.store.value h := by
  have works := prepare_works regular dragged force
  have succeeds := prepare_succeeds regular there force
  have values : ∀ h, ∀ sp ∈ s.spaces, ∀ sk₁,
      (sp.prepare sk₁ dragged force).2.2.store.value h = sk₁.store.value h := by
    intro h sp mem sk₁
    have outcome := Space.prepare_outcome (regular sp mem) sk₁ dragged force
    generalize sp.prepare sk₁ dragged force = r at outcome
    cases outcome with
    | skipped => rfl
    | missing => rfl
    | built _ _ _ _ built => exact built.store.value h
  unfold prepare
  simp only
  rw [untilFailure_ok s.sketch works succeeds]
  refine ⟨_, rfl, ?_, fun h => value_onEach s.sketch (values h)⟩
  rw [(swept_onEach s.sketch works).sketch]

/-- Refreshing regular spaces succeeds, also where it does nothing. -/
theorem refresh_of_regular (regular : s.Regular) : s.refresh.1 = .ok () := by
  unfold refresh
  split
  next => rfl
  next =>
    have there : ∀ id, none = some id → s.sketch.entity? id ≠ none := fun id is => by cases is
    obtain ⟨s', eq, _⟩ := prepare_of_regular regular there false
    rw [eq]

/-! ## Adding -/

section Solve

variable [One α] [Add α] [Sub α] [Mul α] [Div α] [Neg α] [LT α] [LE α] [BEq α]
variable [DecidableLT α] [DecidableLE α] [Elementary α]

/-- An addition tries a solve, but its failure does not lock the session. -/
theorem addToSpace_kept {c : Constraint} (s : Session α) (index : Nat) (fits : c.Fits) :
    Kept s (s.addToSpace index c).2 := by
  unfold addToSpace space
  cases found : s.spaces[index]? with
  | none => exact .refl s
  | some sp =>
    have mem := List.mem_of_getElem? found
    have kept := Space.addConstraint_kept sp s.sketch c
    refine ⟨rfl, rfl, fun regular tp mem' => ?_, fun idle tp mem' => ?_⟩
    · rcases List.mem_or_eq_of_mem_set mem' with old | rfl
      · exact regular tp old
      · refine kept.regular ⟨fun d hd => ?_, (regular sp mem).unmarked⟩
        rcases List.mem_append.mp hd with old | new
        · exact (regular sp mem).fits d old
        · rw [List.mem_singleton.mp new]
          exact fits
    · rcases List.mem_or_eq_of_mem_set mem' with old | rfl
      · exact idle tp old
      · exact kept.inTransaction.trans (idle sp mem)

/-- Several additions keep what each of them keeps. -/
theorem addEach_kept : ∀ (cs : List (Nat × Constraint)) (s : Session α),
    (∀ p ∈ cs, p.2.Fits) → Kept s (addEach cs s).2
  | [], s, _ => .refl s
  | (index, c) :: rest, s, fits => by
    have first := addToSpace_kept s index (fits _ List.mem_cons_self)
    unfold addEach
    split
    next eq =>
      rw [eq] at first
      exact first
    next s₁ eq =>
      rw [eq] at first
      have later := addEach_kept rest s₁ fun p mem => fits p (List.mem_cons_of_mem _ mem)
      split
      next eq' =>
        rw [eq'] at later
        exact first.trans later
      next eq' =>
        rw [eq'] at later
        exact first.trans later

/-- A constraint that is created fits its kind. -/
theorem constrain_kept (s : Session α) (kind : Kind) (ids : List EntityId) :
    Kept s (s.constrain kind ids).2 := by
  unfold constrain
  split
  next => exact .refl s
  next c sketch created =>
    obtain ⟨_, _, fits, _⟩ := Constraint.create_ok created
    exact (Kept.of_sketch s sketch).trans (addToSpace_kept _ 0 fits)

theorem constrainDecorated_kept (s : Session α) (kind : Kind) (ids : List EntityId) :
    Kept s (s.constrainDecorated kind ids).2 := by
  unfold constrainDecorated
  split
  next => exact .refl s
  next c sketch created =>
    obtain ⟨_, _, fits, _⟩ := Constraint.create_ok created
    exact (Kept.of_sketch s sketch.decorate.2).trans (addToSpace_kept _ 0 fits)

/-! ## Solving -/

/-- Solving keeps all spaces regular, also those that could not be solved. -/
theorem solve_regular (regular : s.Regular) (rough : Bool) : (s.solve rough).2.Regular := by
  unfold solve
  split
  next => exact regular
  next =>
    obtain ⟨locked, eq⟩ := s.lockOn_eq
      (onEach (fun (sp : Space α) sk => sp.solveNow sk rough) s.spaces s.sketch)
    simp only
    rw [eq]
    exact regular_onEach (fun sp sk => (Space.solveNow_kept sp sk rough).regular) regular

/-- Ending a transaction prepares and solves, and both keep spaces regular. -/
theorem finishTransaction_regular (regular : s.Regular) : s.finishTransaction.2.Regular := by
  obtain ⟨locked, eq⟩ := lockOn_eq { s with inTransaction := false }
    (onEach (fun (sp : Space α) sk => sp.finishTransaction sk) s.spaces s.sketch)
  have ended : (lockOn { s with inTransaction := false }
      (onEach (fun (sp : Space α) sk => sp.finishTransaction sk) s.spaces s.sketch)).2.Regular := by
    rw [eq]
    refine regular_onEach (fun sp sk regular => ?_) regular
    exact (Space.finishTransaction_kept sp sk).regular ⟨regular.fits, regular.unmarked⟩
  unfold finishTransaction
  simp only
  split
  next eq' =>
    rw [eq'] at ended
    exact ended
  next s' eq' =>
    rw [eq'] at ended
    exact (refresh_kept s').regular ended

/-- Solving finely is preparing and solving. -/
theorem solveFine_regular (regular : s.Regular) : s.solveFine.2.Regular := by
  have prepared := (prepare_kept { s with locked := false } none true).regular regular
  unfold solveFine
  split
  next => exact regular
  next =>
    split
    next eq =>
      rw [eq] at prepared
      exact prepared
    next eq =>
      rw [eq] at prepared
      exact solve_regular prepared false

/-- Dragging prepares, moves parameters and solves. -/
theorem drag_regular (regular : s.Regular) (id : EntityId) (dx dy : α) :
    (s.drag id dx dy).2.Regular := by
  have prepared := (prepare_kept s (some id) s.locked).regular regular
  unfold drag
  split
  next eq =>
    rw [eq] at prepared
    exact prepared
  next s₁ eq =>
    rw [eq] at prepared
    split
    next => exact prepared
    next sketch _ => exact solve_regular (s := { s₁ with sketch }) prepared true

/-- A batch is a transaction around additions. -/
theorem addBatch_regular {cs : List (Nat × Constraint)} (regular : s.Regular)
    (fits : ∀ p ∈ cs, p.2.Fits) : (s.addBatch cs).2.Regular := by
  have added := (addEach_kept cs s.startTransaction fits).regular (startTransaction_regular regular)
  unfold addBatch
  split
  next eq =>
    rw [eq] at added
    exact finishTransaction_regular added
  next eq =>
    rw [eq] at added
    exact finishTransaction_regular added

/-- Fewer constraints are regular, and the solves afterwards keep them so. -/
theorem removeConstraints_regular (regular : s.Regular) (ids : List ConstraintId) :
    (s.removeConstraints ids).2.Regular := by
  have detached := (detachEach_kept ids s).regular regular
  unfold removeConstraints
  split
  next eq =>
    rw [eq] at detached
    exact detached
  next s₁ eq =>
    rw [eq] at detached
    have solved := solveFine_regular detached
    split
    next eq' =>
      rw [eq'] at solved
      exact solved
    next s₂ eq' =>
      rw [eq'] at solved
      exact (refresh_kept s₂).regular solved

/-- Removing entities is a transaction around removals. -/
theorem removeEntities_regular (regular : s.Regular) (ids : List EntityId) :
    (s.removeEntities ids).2.Regular :=
  finishTransaction_regular <|
    (Kept.foldl removeEntity_kept ids _).regular (startTransaction_regular regular)

/-- Restoring adds constraints that were created, which fit. -/
theorem restore_regular (regular : s.Regular) (records : List Record) :
    (s.restore records).2.Regular := by
  have rebuilt := (rebuild_kept records s).regular regular
  unfold restore
  split
  next eq =>
    rw [eq] at rebuilt
    exact rebuilt
  next eq =>
    rw [eq] at rebuilt
    exact addBatch_regular rebuilt fun p mem => ((rebuild_ok eq).1 p mem).fits

end Solve

end Session

namespace Operation

open Session

variable [Zero α] [One α] [Add α] [Sub α] [Mul α] [Div α] [Neg α] [LT α] [LE α] [BEq α]
variable [DecidableLT α] [DecidableLE α] [Elementary α] {op : Operation α} {s : Session α}

/-- The constraints that are handed to an operation have as many parameters as their kinds ask for. -/
def Fitting (op : Operation α) : Prop :=
  match op with
  | add _ c => c.Fits
  | addConstraints cs => ∀ c ∈ cs, c.Fits
  | _ => True

/-- **All spaces stay regular**, whatever is done. -/
theorem regular_apply (regular : s.Regular) (fitting : op.Fitting) : (op.apply s).Regular := by
  cases op with
  | configure settings => exact (withSettings_kept s settings).regular regular
  | addSpace => exact (addSpace_kept s).regular regular
  | reset => exact (reset_kept s).regular regular
  | clear => exact (clear_kept s).regular regular
  | startTransaction => exact startTransaction_regular regular
  | finishTransaction => exact finishTransaction_regular regular
  | refresh => exact (refresh_kept s).regular regular
  | draw figure =>
    exact (refresh_kept { s with sketch := s.sketch.draw figure }).regular regular
  | create kind ids =>
    unfold apply
    simp only
    split
    next => exact regular
    next => exact regular
  | add index c => exact (addToSpace_kept s index fitting).regular regular
  | addConstraints cs =>
    refine addBatch_regular regular fun p mem => ?_
    obtain ⟨c, hc, rfl⟩ := List.mem_map.mp mem
    exact fitting c hc
  | constrain kind ids => exact (constrain_kept s kind ids).regular regular
  | constrainDecorated kind ids => exact (constrainDecorated_kept s kind ids).regular regular
  | removeConstraints ids => exact removeConstraints_regular regular ids
  | removeEntities ids => exact removeEntities_regular regular ids
  | solve rough => exact solve_regular regular rough
  | solveFine => exact solveFine_regular regular
  | prepare dragged force => exact (prepare_kept s dragged force).regular regular
  | drag id dx dy => exact drag_regular regular id dx dy
  | endDrag => exact solve_regular regular false
  | restore records => exact restore_regular regular records

end Operation

end SketchSolver
