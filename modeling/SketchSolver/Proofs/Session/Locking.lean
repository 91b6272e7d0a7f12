import SketchSolver.Proofs.Session.Upkeep

/-!
# The lock

A session is locked exactly when a space could not be solved and the lock was not
cleared since (`locked_iff`). What counts as an incident is read off the solves
themselves: those that end a transaction take place whether the session is locked
or not, the others only in a session that is not locked, and a solve that tries a
constraint out is no incident at all.

Only `solveFine` clears the lock, also when constraints are removed. While it is there
nothing is solved but what a transaction has put off (`Guarded`): a solve is refused and
changes nothing, and a drag moves the points of the entity and reports the lock.

The incidents of an operation are a list, in the order in which they occur, and are
computed from the session before it (`Operation.incidents`). This is a function of its
own, beside the operation, and says nothing about the lock: it only says which solves the
operation makes and which of them fail. That the lock is what becomes of these incidents
(`locked_apply`) is proved operation by operation. The failures of a sweep over all spaces
are collected as the sweep goes, each space being solved on the sketch that the one before
left (`failures`, `onEach_failures`); the sweep reports the first of them and locks if
there is any (`lockOn_outcome`).

For a whole run the incidents are strung together, and the lock follows by induction
(`locked_run`). Between operations anything may be done to the sketch: a `Call` is an
operation or a change of the sketch by others. No assumption is made about the sketch, and
the spaces need only be regular, which they stay if the constraints that are handed over
fit. `locked_iff` then reads the last flag off the list: some failure came after the last
time that the lock was cleared.
-/

namespace SketchSolver

variable {α : Type}

/-- What changes the lock of a session. -/
inductive Incident (α : Type) where
  /-- A space could not be solved. -/
  | failed (cause : SolveFailure α)
  /-- The lock was cleared. -/
  | cleared

namespace Incident

/-- Whether a session is locked after incidents. -/
def lockAfter (locked : Bool) : List (Incident α) → Bool
  | [] => locked
  | failed _ :: rest => lockAfter true rest
  | cleared :: rest => lockAfter false rest

/-- A space could not be solved, and the lock was not cleared since. -/
def Pending (incidents : List (Incident α)) : Prop :=
  ∃ before cause after, incidents = before ++ failed cause :: after ∧ cleared ∉ after

theorem lockAfter_append (locked : Bool) : ∀ (incidents later : List (Incident α)),
    lockAfter locked (incidents ++ later) = lockAfter (lockAfter locked incidents) later
  | [], _ => rfl
  | failed _ :: rest, later => lockAfter_append true rest later
  | cleared :: rest, later => lockAfter_append false rest later

/-- Failures lock, and none of them clears. -/
theorem lockAfter_failed (locked : Bool) : ∀ causes : List (SolveFailure α),
    lockAfter locked (causes.map failed) = (locked || !causes.isEmpty)
  | [] => (Bool.or_false locked).symm
  | _ :: rest => by
    show lockAfter true (rest.map failed) = (locked || true)
    rw [lockAfter_failed true rest, Bool.true_or, Bool.or_true]

/-- What is pending after a first incident was so before, or is due to this incident. -/
theorem pending_cons {incident : Incident α} {rest : List (Incident α)} :
    Pending (incident :: rest) ↔
      Pending rest ∨ (∃ cause, incident = failed cause) ∧ cleared ∉ rest := by
  constructor
  · rintro ⟨before, cause, after, split, none⟩
    cases before with
    | nil =>
      obtain ⟨rfl, rfl⟩ := List.cons.inj split
      exact Or.inr ⟨⟨cause, rfl⟩, none⟩
    | cons _ before => exact Or.inl ⟨before, cause, after, (List.cons.inj split).2, none⟩
  · rintro (⟨before, cause, after, rfl, none⟩ | ⟨⟨cause, rfl⟩, none⟩)
    · exact ⟨incident :: before, cause, after, rfl, none⟩
    · exact ⟨[], cause, rest, rfl, none⟩

/-- **The lock after incidents tells whether one is pending**, or it is the lock from before. -/
theorem lockAfter_iff : ∀ {incidents : List (Incident α)} {locked : Bool},
    lockAfter locked incidents = true ↔ Pending incidents ∨ locked = true ∧ cleared ∉ incidents
  | [], locked => by
    constructor
    · exact fun was => Or.inr ⟨was, List.not_mem_nil⟩
    · rintro (⟨before, cause, after, split, _⟩ | ⟨was, _⟩)
      · exact absurd split (by simp)
      · exact was
  | failed cause :: rest, locked => by
    show lockAfter true rest = true ↔ _
    rw [lockAfter_iff, pending_cons]
    simp only [true_and, failed.injEq, exists_eq', List.mem_cons, reduceCtorEq, false_or]
    -- what was pending before is pending still
    exact ⟨Or.inl, fun both => both.elim id fun was => Or.inr was.2⟩
  | cleared :: rest, locked => by
    show lockAfter false rest = true ↔ _
    rw [lockAfter_iff, pending_cons]
    simp

end Incident

namespace Session

open Incident

/-- The result of solving all spaces: the first failure, if any. -/
def outcome : List (SolveFailure α) → Except (Failure α) Unit
  | [] => .ok ()
  | cause :: _ => .error (.rolledBack cause)

/-- A failure locks, and the first one is told. -/
theorem lockOn_outcome {r : Option (Failure α) × List (Space α) × Sketch α}
    {causes : List (SolveFailure α)} (s : Session α)
    (first : r.1 = causes.head?.map .rolledBack) :
    (s.lockOn r).1 = outcome causes ∧
      (s.lockOn r).2.locked = lockAfter s.locked (causes.map .failed) := by
  rw [lockAfter_failed]
  obtain ⟨error, spaces, sketch⟩ := r
  simp only at first
  subst first
  cases causes with
  | nil => exact ⟨rfl, (Bool.or_false s.locked).symm⟩
  | cons cause rest => exact ⟨rfl, (Bool.or_true s.locked).symm⟩

end Session

variable [Zero α] [One α] [Add α] [Sub α] [Mul α] [Div α] [Neg α] [LT α] [LE α] [BEq α]
variable [DecidableLT α] [DecidableLE α] [Elementary α]

omit [One α] [Add α] [Sub α] [Mul α] [Div α] [Neg α] [LT α] [LE α] [BEq α] [DecidableLT α]
  [DecidableLE α] [Elementary α] in
/-- The space as it is solved when its transaction ends, with the sketch. -/
def Space.readied (sp : Space α) (sk : Sketch α) : Space α × Sketch α :=
  ({ sp with inTransaction := false }.prepare sk none true).2

/-- A regular space that ends its transaction is solved in any case. -/
theorem Space.finishTransaction_eq {sp : Space α} (regular : sp.Regular) (sk : Sketch α) :
    sp.finishTransaction sk = (sp.readied sk).1.solveNow (sp.readied sk).2 false := by
  have regular' : ({ sp with inTransaction := false } : Space α).Regular :=
    ⟨regular.fits, regular.unmarked⟩
  obtain ⟨sp', sk', build, _⟩ := build_ok sk fun c hc =>
    (regular'.arranged none []).fits c (valid_sub hc)
  unfold finishTransaction readied
  rw [prepare_none, build]

namespace Session

open Incident

variable {s : Session α} {spaces : List (Space α)} {sk : Sketch α} {rough : Bool}

/-- Why spaces cannot be solved that are made ready and solved one after the other. -/
def failures (ready : Space α → Sketch α → Space α × Sketch α) (rough : Bool) :
    List (Space α) → Sketch α → List (SolveFailure α)
  | [], _ => []
  | sp :: rest, sk =>
    let (sp, sk) := ready sp sk
    match sp.solve sk rough with
    | (.ok _, _, sk) => failures ready rough rest sk
    | (.error cause, _, sk) => cause :: failures ready rough rest sk

/-- A sweep that readies and solves each space reports the first failure of all. -/
theorem onEach_failures {act : SpaceAction α Report}
    {ready : Space α → Sketch α → Space α × Sketch α} : ∀ {spaces : List (Space α)} (sk : Sketch α),
    (∀ sp ∈ spaces, ∀ sk, act sp sk = (ready sp sk).1.solveNow (ready sp sk).2 rough) →
    (onEach act spaces sk).1 = (failures ready rough spaces sk).head?.map .rolledBack
  | [], _, _ => rfl
  | sp :: rest, sk, turn => by
    have turn' : ∀ tp ∈ rest, ∀ sk, act tp sk = (ready tp sk).1.solveNow (ready tp sk).2 rough :=
      fun tp mem => turn tp (List.mem_cons_of_mem _ mem)
    unfold onEach failures
    rw [turn sp List.mem_cons_self sk]
    unfold Space.solveNow
    simp only
    rcases (ready sp sk).1.solve (ready sp sk).2 rough with ⟨_ | _, sp₁, sk₁⟩
    · -- later failures are not told
      rfl
    · exact onEach_failures sk₁ turn'

/-! ## Incidents -/

/-- Why spaces cannot be solved at the end of the transaction. -/
def closing (s : Session α) : List (SolveFailure α) :=
  failures Space.readied false s.spaces s.sketch

/-- Why spaces cannot be solved as they are. A locked session does not try. -/
def solving (s : Session α) (rough : Bool) : List (SolveFailure α) :=
  if s.locked then [] else failures Prod.mk rough s.spaces s.sketch

/-- The incidents of `solveFine`. -/
def refining (s : Session α) : List (Incident α) :=
  if s.locked then
    .cleared :: match { s with locked := false }.prepare none true with
      | (.error _, _) => []
      | (.ok (), s) => (s.solving false).map .failed
  else []

/-- **After the end of a transaction** nothing puts off solving, whatever failed, and the failure of the
first space is told. -/
theorem finishTransaction_spec (regular : s.Regular) :
    s.finishTransaction.1 = outcome s.closing ∧
      s.finishTransaction.2.locked = lockAfter s.locked (s.closing.map .failed) ∧
      s.finishTransaction.2.inTransaction = false ∧ s.finishTransaction.2.Idle := by
  have first : (onEach (fun (sp : Space α) sk => sp.finishTransaction sk) s.spaces s.sketch).1 =
      s.closing.head?.map .rolledBack :=
    onEach_failures s.sketch fun sp mem sk => Space.finishTransaction_eq (regular sp mem) sk
  have each : List.Forall₂ (fun sp sp' => Space.Kept { sp with inTransaction := false } sp')
      s.spaces (onEach (fun (sp : Space α) sk => sp.finishTransaction sk) s.spaces s.sketch).2.1 :=
    forall₂_onEach Space.finishTransaction_kept s.spaces s.sketch
  unfold finishTransaction
  simp only
  generalize onEach (fun (sp : Space α) sk => sp.finishTransaction sk) s.spaces s.sketch = r
    at first each
  obtain ⟨result, locked⟩ := lockOn_outcome { s with inTransaction := false } first
  obtain ⟨lock, same⟩ := lockOn_eq { s with inTransaction := false } r
  generalize lockOn { s with inTransaction := false } r = ended at result locked same
  obtain ⟨result', s'⟩ := ended
  simp only at result locked same
  have spaces : s'.spaces = r.2.1 := by rw [same]
  have idle : s'.inTransaction = false := by rw [same]
  have idles : s'.Idle := by
    intro sp' mem
    obtain ⟨sp, _, kept⟩ := exists_of_forall₂ each (spaces ▸ mem)
    exact kept.inTransaction
  have regular' : s'.Regular := by
    intro sp' mem
    obtain ⟨sp, old, kept⟩ := exists_of_forall₂ each (spaces ▸ mem)
    exact kept.regular ⟨(regular sp old).fits, (regular sp old).unmarked⟩
  cases result' with
  | error e => exact ⟨result, locked, idle, idles⟩
  | ok _ =>
    -- everything is prepared already, and is once more
    have refreshed := refresh_kept s'
    refine ⟨(refresh_of_regular regular').trans result, refreshed.locked.trans locked,
      refreshed.inTransaction.trans idle, refreshed.idle idles⟩

/-- Solving locks a session that is not locked if one of its spaces fails, and leaves a locked one.
-/
theorem solve_spec (s : Session α) (rough : Bool) :
    (s.solve rough).2.locked = lockAfter s.locked ((s.solving rough).map .failed) := by
  have first : (onEach (fun (sp : Space α) sk => sp.solveNow sk rough) s.spaces s.sketch).1 =
      (failures Prod.mk rough s.spaces s.sketch).head?.map .rolledBack :=
    onEach_failures s.sketch fun _ _ _ => rfl
  unfold solve solving
  by_cases locked : s.locked = true
  · rw [if_pos locked, if_pos locked]
    rfl
  · rw [if_neg locked, if_neg locked]
    exact (lockOn_outcome s first).2

/-- Solving finely clears the lock before anything else, and may set it again. -/
theorem solveFine_spec (s : Session α) : s.solveFine.2.locked = lockAfter s.locked s.refining := by
  unfold solveFine refining
  cases locked : s.locked with
  | false => exact locked
  | true =>
    have prepared := (prepare_kept { s with locked := false } none true).locked
    simp only [Bool.not_true, Bool.false_eq_true, if_false, if_true]
    show _ = lockAfter false _
    generalize ({ s with locked := false } : Session α).prepare none true = r at prepared
    obtain ⟨_ | _, s₁⟩ := r
    · exact prepared
    · simp only at prepared ⊢
      rw [solve_spec, prepared]

/-- The incidents of a batch are those of its end, whether it broke off or not. -/
theorem addBatch_spec {cs : List (Nat × Constraint)} (regular : s.Regular)
    (fits : ∀ p ∈ cs, p.2.Fits) : (s.addBatch cs).2.locked =
      lockAfter s.locked ((addEach cs s.startTransaction).2.closing.map .failed) := by
  have kept := addEach_kept cs s.startTransaction fits
  have added := kept.regular (startTransaction_regular regular)
  have locked : (addEach cs s.startTransaction).2.locked = s.locked := kept.locked
  -- the transaction is ended in both cases
  unfold addBatch
  split
  next eq =>
    rw [eq] at added locked
    rw [eq, ← locked]
    exact (finishTransaction_spec added).2.1
  next eq =>
    rw [eq] at added locked
    rw [eq, ← locked]
    exact (finishTransaction_spec added).2.1

end Session

namespace Operation

open Session Incident

variable {op : Operation α} {s : Session α}

/-- The incidents of an operation, in order. -/
def incidents (op : Operation α) (s : Session α) : List (Incident α) :=
  match op with
  | finishTransaction => s.closing.map .failed
  | solve rough => (s.solving rough).map .failed
  | endDrag => (s.solving false).map .failed
  | solveFine => s.refining
  | drag id dx dy =>
    match s.prepare (some id) s.locked with
    | (.error _, _) => []
    | (.ok (), s) =>
      match s.sketch.translate id dx dy with
      | .error _ => []
      | .ok sketch => (({ s with sketch } : Session α).solving true).map .failed
  | addConstraints cs =>
    (addEach (cs.map fun c => (0, c)) s.startTransaction).2.closing.map .failed
  | removeConstraints ids =>
    match detachEach ids s with
    | (.error _, _) => []
    | (.ok _, s) => s.refining
  | removeEntities ids => (ids.foldl removeEntity s.startTransaction).closing.map .failed
  | restore records =>
    match rebuild records s with
    | (.error _, _) => []
    | (.ok cs, s) => (addEach cs s.startTransaction).2.closing.map .failed
  | _ => []

/-- A drag solves at most once, at its end, and not in a locked session. -/
theorem locked_drag (s : Session α) (id : EntityId) (dx dy : α) :
    (s.drag id dx dy).2.locked = lockAfter s.locked ((drag id dx dy).incidents s) := by
  have prepared := (prepare_kept s (some id) s.locked).locked
  unfold Session.drag incidents
  simp only
  generalize s.prepare (some id) s.locked = r at prepared
  obtain ⟨_ | _, s₁⟩ := r
  · exact prepared
  · simp only at prepared ⊢
    rw [← prepared]
    cases s₁.sketch.translate id dx dy with
    | error e => rfl
    | ok sketch => exact solve_spec { s₁ with sketch } true

/-- Removing constraints solves finely when all of them were found, and otherwise not at all. -/
theorem locked_removeConstraints (s : Session α) (ids : List ConstraintId) :
    (s.removeConstraints ids).2.locked =
      lockAfter s.locked ((removeConstraints ids).incidents s) := by
  have detached := (detachEach_kept ids s).locked
  unfold Session.removeConstraints incidents
  simp only
  generalize detachEach ids s = r at detached
  obtain ⟨_ | _, s₁⟩ := r
  · exact detached
  · simp only at detached ⊢
    rw [← detached, ← solveFine_spec s₁]
    obtain ⟨_ | _, s₂⟩ := s₁.solveFine
    · rfl
    · exact (refresh_kept s₂).locked

/-- Restoring solves once, at the end of its transaction, if all records could be rebuilt. -/
theorem locked_restore (regular : s.Regular) (records : List Record) :
    (s.restore records).2.locked = lockAfter s.locked ((restore records).incidents s) := by
  have rebuilt := rebuild_kept records s
  unfold Session.restore incidents
  simp only
  cases eq : rebuild records s with
  | mk result s₁ =>
    rw [eq] at rebuilt
    cases result with
    | error e => exact rebuilt.locked
    | ok cs =>
      simp only at rebuilt ⊢
      rw [← rebuilt.locked]
      exact addBatch_spec (rebuilt.regular regular) fun p mem => ((rebuild_ok eq).1 p mem).fits

/-- **Incidents alone change the lock.** -/
theorem locked_apply (regular : s.Regular) (fitting : op.Fitting) :
    (op.apply s).locked = lockAfter s.locked (op.incidents s) := by
  cases op with
  | configure settings => exact (withSettings_kept s settings).locked
  | addSpace => exact (addSpace_kept s).locked
  | reset => exact (reset_kept s).locked
  | clear => exact (clear_kept s).locked
  | startTransaction => rfl
  | finishTransaction => exact (finishTransaction_spec regular).2.1
  | refresh => exact (refresh_kept s).locked
  | draw figure => exact (refresh_kept { s with sketch := s.sketch.draw figure }).locked
  | create kind ids =>
    unfold apply
    simp only
    split
    next => rfl
    next => rfl
  | add index c => exact (addToSpace_kept s index fitting).locked
  | addConstraints cs =>
    refine addBatch_spec regular fun p mem => ?_
    obtain ⟨c, hc, rfl⟩ := List.mem_map.mp mem
    exact fitting c hc
  | constrain kind ids => exact (constrain_kept s kind ids).locked
  | constrainDecorated kind ids => exact (constrainDecorated_kept s kind ids).locked
  | removeConstraints ids => exact locked_removeConstraints s ids
  | removeEntities ids =>
    -- the removals keep the lock as it is, and the end of the transaction decides
    have removed := Kept.foldl removeEntity_kept ids s.startTransaction
    have ended := finishTransaction_spec (removed.regular (startTransaction_regular regular))
    exact ended.2.1.trans (congrArg (fun locked => lockAfter locked _) removed.locked)
  | solve rough => exact solve_spec s rough
  | solveFine => exact solveFine_spec s
  | prepare dragged force => exact (prepare_kept s dragged force).locked
  | drag id dx dy => exact locked_drag s id dx dy
  | endDrag => exact solve_spec s false
  | restore records => exact locked_restore regular records

/-- Only `solveFine` clears the lock, on its own or after constraints were removed. -/
theorem refines_of_cleared (mem : .cleared ∈ op.incidents s) :
    op = solveFine ∨ ∃ ids, op = removeConstraints ids := by
  have failed_ne : ∀ causes : List (SolveFailure α), .cleared ∉ causes.map failed := by simp
  cases op with
  | solveFine => exact Or.inl rfl
  | removeConstraints ids => exact Or.inr ⟨ids, rfl⟩
  | finishTransaction => exact absurd mem (failed_ne _)
  | solve => exact absurd mem (failed_ne _)
  | endDrag => exact absurd mem (failed_ne _)
  | addConstraints => exact absurd mem (failed_ne _)
  | removeEntities => exact absurd mem (failed_ne _)
  | drag =>
    unfold incidents at mem
    simp only at mem
    split at mem
    next => exact absurd mem List.not_mem_nil
    next =>
      split at mem
      next => exact absurd mem List.not_mem_nil
      next => exact absurd mem (failed_ne _)
  | restore =>
    unfold incidents at mem
    simp only at mem
    split at mem
    next => exact absurd mem List.not_mem_nil
    next => exact absurd mem (failed_ne _)
  | _ => exact absurd mem List.not_mem_nil

end Operation

/-! ## What is locked -/

section Translate

omit [One α] [Sub α] [Mul α] [Div α] [Neg α] [LT α] [LE α] [BEq α] [DecidableLT α]
  [DecidableLE α] [Elementary α]

variable {s t : Store α} {h : Handle}

/-- Where a point is moved, its coordinates change and nothing else. One parameter may be both of
them, and then it is moved twice. -/
theorem Point.value_translate (p : Point) (s : Store α) (dx dy : α) (h : Handle) :
    (p.translate s dx dy).value h =
      if p.y = h then s.value p.y + dy else if p.x = h then s.value p.x + dx else s.value h := by
  unfold Point.translate Point.moveTo
  rw [Store.value_setValue, Store.value_setValue]

/-- Where an entity moves to depends on the values alone. -/
theorem Shape.value_translate_congr (shape : Shape) (dx dy : α)
    (same : ∀ h, t.value h = s.value h) (h : Handle) :
    (shape.translate t dx dy).value h = (shape.translate s dx dy).value h := by
  unfold Shape.translate
  generalize shape.points = points
  induction points generalizing s t with
  | nil => exact same h
  | cons p points ih =>
    refine ih fun k => ?_
    rw [Point.value_translate, Point.value_translate, same, same, same]

/-- An entity that moves takes nothing along but the coordinates of its points. -/
theorem Shape.value_translate_of_not_mem (shape : Shape) (s : Store α) (dx dy : α)
    (free : ∀ p ∈ shape.points, h ∉ p.params) :
    (shape.translate s dx dy).value h = s.value h := by
  unfold Shape.translate
  generalize shape.points = points at free
  induction points generalizing s with
  | nil => rfl
  | cons p points ih =>
    have away := free p List.mem_cons_self
    unfold Point.params at away
    simp only [List.mem_cons, List.not_mem_nil, or_false, not_or] at away
    rw [List.foldl_cons, ih _ fun q mem => free q (List.mem_cons_of_mem _ mem),
      Point.value_translate, if_neg (Ne.symm away.2), if_neg (Ne.symm away.1)]

end Translate

namespace Session

variable {s : Session α}

/-- What a locked session answers: it does not solve, and a drag moves the points of the entity and
nothing else. -/
structure Guarded (s : Session α) : Prop where
  solve : ∀ rough, s.solve rough = (.error .locked, s)
  endDrag : s.endDrag = (.error .locked, s)
  drag : ∀ id e dx dy, s.sketch.entity? id = some e →
    ∃ s', s.drag id dx dy = (.error .locked, s') ∧
      (∀ h, s'.sketch.store.value h = (e.shape.translate s.sketch.store dx dy).value h) ∧
      ∀ h, (∀ p ∈ e.shape.points, h ∉ p.params) →
        s'.sketch.store.value h = s.sketch.store.value h

theorem solve_of_locked (locked : s.locked = true) (rough : Bool) :
    s.solve rough = (.error .locked, s) := by
  unfold solve
  rw [if_pos locked]

/-- A locked session is guarded, as long as its spaces can be prepared. -/
theorem guarded_of_locked (regular : s.Regular) (locked : s.locked = true) : s.Guarded := by
  refine ⟨solve_of_locked locked, solve_of_locked locked false, fun id e dx dy found => ?_⟩
  have there : ∀ id', some id = some id' → s.sketch.entity? id' ≠ none := by
    rintro _ ⟨⟩
    rw [found]
    exact Option.some_ne_none e
  obtain ⟨s₁, prepared, entities, values⟩ := prepare_of_regular regular there s.locked
  have kept := (prepare_kept s (some id) s.locked).locked
  rw [prepared, locked] at kept
  have found' : s₁.sketch.entity? id = some e := by
    unfold Sketch.entity?
    rw [entities]
    exact found
  have moved : s₁.sketch.translate id dx dy =
      .ok { s₁.sketch with store := e.shape.translate s₁.sketch.store dx dy } := by
    unfold Sketch.translate Sketch.entity
    rw [found']
    rfl
  refine ⟨{ s₁ with sketch := { s₁.sketch with
    store := e.shape.translate s₁.sketch.store dx dy } }, ?_, fun h => ?_, fun h free => ?_⟩
  · unfold Session.drag
    rw [prepared]
    simp only
    rw [moved]
    have still : ({ s₁ with sketch := { s₁.sketch with
      store := e.shape.translate s₁.sketch.store dx dy } } : Session α).locked = true := kept
    exact solve_of_locked still true
  · exact e.shape.value_translate_congr dx dy values h
  · exact (e.shape.value_translate_of_not_mem _ dx dy free).trans (values h)

end Session

/-! ## Histories -/

/-- What is done to a session: an operation, or a change of its sketch by others. -/
inductive Call (α : Type) where
  | operate (op : Operation α)
  | edit (change : Sketch α → Sketch α)

namespace Call

open Session Incident

variable {call : Call α} {s : Session α}

/-- The session after a call. -/
def apply (call : Call α) (s : Session α) : Session α :=
  match call with
  | operate op => op.apply s
  | edit change => { s with sketch := change s.sketch }

/-- The constraints that are handed over have as many parameters as their kinds ask for. -/
def Fitting (call : Call α) : Prop :=
  match call with
  | operate op => op.Fitting
  | edit _ => True

/-- The incidents of a call, in order. -/
def incidents (call : Call α) (s : Session α) : List (Incident α) :=
  match call with
  | operate op => op.incidents s
  | edit _ => []

/-- The session after some calls. -/
def run (calls : List (Call α)) (s : Session α) : Session α :=
  calls.foldl (fun s call => call.apply s) s

/-- The incidents of some calls, in order. -/
def history : List (Call α) → Session α → List (Incident α)
  | [], _ => []
  | call :: calls, s => call.incidents s ++ history calls (call.apply s)

theorem regular_step (regular : s.Regular) (fitting : call.Fitting) : (call.apply s).Regular := by
  cases call with
  | operate op => exact Operation.regular_apply regular fitting
  | edit change => exact regular

/-- The lock after a call is what becomes of its incidents. Others do not touch it. -/
theorem locked_step (regular : s.Regular) (fitting : call.Fitting) :
    (call.apply s).locked = lockAfter s.locked (call.incidents s) := by
  cases call with
  | operate op => exact Operation.locked_apply regular fitting
  | edit change => rfl

/-- All calls together, by induction: spaces stay regular, and the lock follows the incidents. -/
theorem locked_run : ∀ {calls : List (Call α)} {s : Session α}, s.Regular →
    (∀ call ∈ calls, call.Fitting) →
    (run calls s).Regular ∧ (run calls s).locked = lockAfter s.locked (history calls s)
  | [], _, regular, _ => ⟨regular, rfl⟩
  | call :: calls, s, regular, fitting => by
    have first := fitting call List.mem_cons_self
    have later := locked_run (s := call.apply s) (regular_step regular first)
      fun next mem => fitting next (List.mem_cons_of_mem _ mem)
    refine ⟨later.1, later.2.trans ?_⟩
    rw [locked_step regular first, history, lockAfter_append]

/-- Only `solveFine` unlocks a session, on its own or after constraints were removed. -/
theorem refines_of_unlocked (regular : s.Regular) (fitting : call.Fitting) (was : s.locked = true)
    (unlocked : (call.apply s).locked = false) :
    call = operate .solveFine ∨ ∃ ids, call = operate (.removeConstraints ids) := by
  rw [locked_step regular fitting] at unlocked
  -- had the lock not been cleared, it would still be there
  have cleared : .cleared ∈ call.incidents s := by
    by_contra none
    have still := lockAfter_iff.mpr (Or.inr ⟨was, none⟩)
    rw [unlocked] at still
    exact Bool.false_ne_true still
  cases call with
  | operate op =>
    rcases Operation.refines_of_cleared cleared with rfl | ⟨ids, rfl⟩
    · exact Or.inl rfl
    · exact Or.inr ⟨ids, rfl⟩
  | edit change => exact absurd cleared List.not_mem_nil

/-- **The lock is exact.** After any calls a session is locked if and only if a space could not be
solved and the lock was not cleared since. Only `solveFine` clears it, and adding a constraint does
not set it. A locked session is guarded, and ending a transaction tells the first failure and
leaves nothing that puts off solving. -/
theorem locked_iff {sketch : Sketch α} {settings : Settings α} {calls : List (Call α)}
    {s : Session α} (fitting : ∀ call ∈ calls, call.Fitting)
    (reached : run calls (Session.create sketch settings) = s) :
    (s.locked = true ↔ Pending (history calls (Session.create sketch settings))) ∧
    (∀ call : Call α, call.Fitting → s.locked = true → (call.apply s).locked = false →
      call = operate .solveFine ∨ ∃ ids, call = operate (.removeConstraints ids)) ∧
    (∀ index c, (s.addToSpace index c).2.locked = s.locked) ∧
    (s.locked = true → s.Guarded) ∧
    s.finishTransaction.1 = outcome s.closing ∧
    s.finishTransaction.2.inTransaction = false ∧ s.finishTransaction.2.Idle := by
  obtain ⟨regular, locked⟩ := locked_run (regular_create sketch settings) fitting
  rw [reached] at regular locked
  obtain ⟨result, _, idle⟩ := finishTransaction_spec regular
  refine ⟨?_, fun call fits was is => ?_, fun index c => ?_, guarded_of_locked regular, result, idle⟩
  · rw [locked, lockAfter_iff]
    exact or_iff_left fun was => absurd was.1 Bool.false_ne_true
  · exact refines_of_unlocked regular fits was is
  · unfold Session.addToSpace
    split
    next => rfl
    next => rfl

/-- A segment is to be parallel to itself, which no solve can improve on. -/
def selfParallel : List (Call Float) :=
  [.operate .startTransaction, .operate (.constrain .parallel [⟨3⟩, ⟨3⟩]),
    .operate .finishTransaction]

/-- The solve that ends the transaction fails. -/
theorem locked_selfParallel :
    (run selfParallel (Session.create Space.oneSegment Settings.standard)).locked = true := by
  decide +kernel

/-- No constraint is handed over, so there is nothing to ask for. -/
theorem fitting_selfParallel : ∀ call ∈ selfParallel, call.Fitting := by
  simp [selfParallel, Fitting, Operation.Fitting]

/-- The failure is pending, and the session answers as a locked one. -/
theorem guarded_selfParallel :
    (∀ call ∈ selfParallel, call.Fitting) ∧
    Pending (history selfParallel (Session.create Space.oneSegment Settings.standard)) ∧
    (run selfParallel (Session.create Space.oneSegment Settings.standard)).Guarded := by
  have fitting := fitting_selfParallel
  obtain ⟨iff, _, _, guarded, _⟩ := locked_iff fitting rfl
  exact ⟨fitting, iff.mp locked_selfParallel, guarded locked_selfParallel⟩

end Call

end SketchSolver
