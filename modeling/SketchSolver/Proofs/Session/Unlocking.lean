import SketchSolver.Proofs.Session.Locking

/-!
# Removing constraints from a locked session

A locked session asks for constraints to be removed. There are three ways to do so, and
one of them unlocks it: removing constraints by their ids ends in a new solve. Removing
entities, and removing everything, take constraints out as well, and leave the lock as
it was, although what could not be solved may be gone with them. It stays until
`solveFine` is asked for, or constraints are removed by their ids (`locked_of_leaves`).

Both directions rest on what is known of the lock: it is what becomes of the incidents of
an operation, in their order. Removing by ids solves finely, whose incidents begin with
clearing the lock; if it succeeds, nothing has failed since (`unlocked_of_solveFine`), and
the refresh that follows is no solve. Removing entities ends a transaction, which has no
incident but failures, and if it succeeds there were none. Removing everything solves
nothing at all. `Removal.locked_iff_of_ok` puts the three together: after a removal that
succeeds the session is locked just when it was before and the removal was not one by ids.

So the lock says less than it seems to. A session may be locked in which no constraint is
left (`not_unlocked_selfParallel`), and it refuses to solve what needs no solving.
-/

namespace SketchSolver

variable {α : Type}

/-- A way to remove constraints. -/
inductive Removal where
  | constraints (ids : List ConstraintId)
  | entities (ids : List EntityId)
  | everything

variable [Zero α] [One α] [Add α] [Sub α] [Mul α] [Div α] [Neg α] [LT α] [LE α] [BEq α]
variable [DecidableLT α] [DecidableLE α] [Elementary α]

/-- The result of a removal, and the session after it. -/
def Removal.apply (removal : Removal) (s : Session α) : Except (Failure α) Unit × Session α :=
  match removal with
  | constraints ids =>
    let (result, s) := s.removeConstraints ids
    (result.map fun _ => (), s)
  | entities ids => s.removeEntities ids
  | everything => (.ok (), s.clear)

namespace Session

variable {s : Session α} {rough : Bool}

omit [Zero α] [One α] [Add α] [Sub α] [Mul α] [Div α] [Neg α] [LT α] [LE α] [BEq α]
  [DecidableLT α] [DecidableLE α] [Elementary α] in
/-- Solving all spaces succeeds only if no space fails. -/
theorem eq_nil_of_outcome {causes : List (SolveFailure α)} (ok : outcome causes = .ok ()) :
    causes = [] := by
  cases causes with
  | nil => rfl
  | cons cause rest => cases ok

/-- A solve that succeeds was not locked, and does not lock. -/
theorem unlocked_of_solve (ok : (s.solve rough).1 = .ok ()) : (s.solve rough).2.locked = false := by
  unfold solve at ok ⊢
  split at ok
  next => cases ok
  next unlocked =>
    rw [if_neg unlocked]
    simp only at ok ⊢
    generalize onEach (fun (sp : Space α) sk => sp.solveNow sk rough) s.spaces s.sketch = r at ok ⊢
    obtain ⟨_ | e, spaces, sketch⟩ := r
    · exact Bool.eq_false_iff.mpr unlocked
    · cases ok

/-- After solving finely with success there is no lock. -/
theorem unlocked_of_solveFine (ok : s.solveFine.1 = .ok ()) : s.solveFine.2.locked = false := by
  cases locked : s.locked with
  | false =>
    rw [solveFine_of_unlocked locked]
    exact locked
  | true =>
    -- the lock is taken away first, and only a failure would put it back
    unfold solveFine at ok ⊢
    simp only [locked, Bool.not_true, Bool.false_eq_true, if_false] at ok ⊢
    generalize ({ s with locked := false } : Session α).prepare none true = r at ok ⊢
    obtain ⟨_ | _, s₁⟩ := r
    · cases ok
    · exact unlocked_of_solve ok

/-- **Removing constraints by their ids unlocks.** -/
theorem unlocked_of_removeConstraints {ids : List ConstraintId} {removed : List Constraint}
    (ok : (s.removeConstraints ids).1 = .ok removed) :
    (s.removeConstraints ids).2.locked = false := by
  unfold removeConstraints at ok ⊢
  generalize detachEach ids s = r at ok ⊢
  obtain ⟨_ | _, s₁⟩ := r
  · cases ok
  · simp only at ok ⊢
    have unlocked : s₁.solveFine.1 = .ok () → s₁.solveFine.2.locked = false := unlocked_of_solveFine
    generalize s₁.solveFine = r at ok unlocked ⊢
    obtain ⟨_ | _, s₂⟩ := r
    · cases ok
    · exact (refresh_kept s₂).locked.trans (unlocked rfl)

end Session

namespace Call

open Session Incident

variable {s : Session α}

/-- A call that is neither `solveFine` nor a removal of constraints by their ids. -/
def Leaves (call : Call α) : Prop :=
  call ≠ .operate .solveFine ∧ ∀ ids, call ≠ .operate (.removeConstraints ids)

/-- **The lock stays** as long as it is not cleared, whatever else is done. -/
theorem locked_of_leaves : ∀ {calls : List (Call α)} {s : Session α}, s.Regular →
    s.locked = true → (∀ call ∈ calls, call.Fitting ∧ call.Leaves) → (run calls s).locked = true
  | [], _, _, locked, _ => locked
  | call :: calls, s, regular, locked, all => by
    obtain ⟨fits, leaves⟩ := all call List.mem_cons_self
    have locked' : (call.apply s).locked = true := by
      by_contra unlocked
      rcases refines_of_unlocked regular fits locked (Bool.eq_false_iff.mpr unlocked) with
        rfl | ⟨ids, rfl⟩
      · exact leaves.1 rfl
      · exact leaves.2 ids rfl
    exact locked_of_leaves (s := call.apply s) (regular_step regular fits) locked'
      fun next mem => all next (List.mem_cons_of_mem _ mem)

end Call

open Session Call

/-- **A removal unlocks a session if and only if it is a removal by ids.** The others leave the lock as
it was, and then it stays until `solveFine` is asked for or constraints are removed by their ids. -/
theorem Removal.locked_iff_of_ok {removal : Removal} {sketch : Sketch α} {settings : Settings α}
    {calls : List (Call α)} {s : Session α} (fitting : ∀ call ∈ calls, call.Fitting)
    (reached : run calls (Session.create sketch settings) = s)
    (ok : (removal.apply s).1 = .ok ()) :
    ((removal.apply s).2.locked = true ↔ s.locked = true ∧ ∀ ids, removal ≠ .constraints ids) ∧
    ∀ later : List (Call α), (∀ call ∈ later, call.Fitting ∧ call.Leaves) →
      (removal.apply s).2.locked = true → (run later (removal.apply s).2).locked = true := by
  obtain ⟨regular, _⟩ := locked_run (regular_create sketch settings) fitting
  rw [reached] at regular
  cases removal with
  | constraints ids =>
    have unlocked : (s.removeConstraints ids).2.locked = false := by
      unfold Removal.apply at ok
      simp only at ok
      cases removed : (s.removeConstraints ids).1 with
      | error e =>
        rw [removed] at ok
        cases ok
      | ok cs => exact unlocked_of_removeConstraints removed
    refine ⟨?_, fun later all locked => ?_⟩
    · show (s.removeConstraints ids).2.locked = true ↔ _
      rw [unlocked]
      simp
    · have locked : (s.removeConstraints ids).2.locked = true := locked
      rw [unlocked] at locked
      cases locked
  | entities ids =>
    -- what ends the transaction solves without a look at the lock
    have ready := Kept.foldl removeEntity_kept ids s.startTransaction
    have regular' := ready.regular (startTransaction_regular regular)
    obtain ⟨result, locked, _⟩ := finishTransaction_spec regular'
    rw [eq_nil_of_outcome (result.symm.trans ok)] at locked
    have same : (s.removeEntities ids).2.locked = s.locked := locked.trans ready.locked
    have kept : (s.removeEntities ids).2.Regular := removeEntities_regular regular ids
    refine ⟨?_, fun later all locked => locked_of_leaves kept locked all⟩
    show (s.removeEntities ids).2.locked = true ↔ _
    rw [same]
    simp
  | everything =>
    have kept := clear_kept s
    refine ⟨?_, fun later all locked => locked_of_leaves (kept.regular regular) locked all⟩
    show s.clear.locked = true ↔ _
    rw [kept.locked]
    simp

namespace Removal

/-- The session that is locked because a segment was to be parallel to itself. -/
def selfParallelSession : Session Float :=
  run selfParallel (Session.create Space.oneSegment Settings.standard)

/-- A result that is no failure is the only other one. -/
theorem eq_ok_of_isSome {r : Except (Failure Float) Unit} (ok : r.toOption.isSome = true) :
    r = .ok () := by
  cases r with
  | error e => cases ok
  | ok => rfl

/-- Removing the constraint by its id unlocks the session. -/
theorem unlocked_selfParallel :
    ((constraints [⟨1⟩]).apply selfParallelSession).1 = .ok () ∧
      ((constraints [⟨1⟩]).apply selfParallelSession).2.locked = false := by
  have ok : ((constraints [⟨1⟩]).apply selfParallelSession).1 = .ok () :=
    eq_ok_of_isSome (by decide +kernel)
  obtain ⟨iff, _⟩ := locked_iff_of_ok fitting_selfParallel rfl ok
  refine ⟨ok, Bool.eq_false_iff.mpr fun locked => ?_⟩
  exact (iff.mp locked).2 [⟨1⟩] rfl

/-- **Constraints can be removed without unlocking the session**: after the segment was removed, or
everything, no constraint is left, and nothing is solved any more. -/
theorem not_unlocked_selfParallel :
    selfParallelSession.inTransaction = false ∧
    selfParallelSession.constraints.map (·.id) = [⟨1⟩] ∧
    ∀ removal ∈ [entities [⟨3⟩], everything],
      (removal.apply selfParallelSession).1 = .ok () ∧
        (removal.apply selfParallelSession).2.constraints = [] ∧
        (removal.apply selfParallelSession).2.locked = true := by
  refine ⟨by decide +kernel, by decide +kernel, fun removal mem => ?_⟩
  rcases List.mem_cons.mp mem with rfl | mem
  · exact ⟨eq_ok_of_isSome (by decide +kernel), by decide +kernel, by decide +kernel⟩
  · rw [List.mem_singleton.mp mem]
    exact ⟨rfl, by decide +kernel, by decide +kernel⟩

end Removal

end SketchSolver
