import SketchSolver.Proofs.Problem.Scratch
import SketchSolver.Proofs.Space.Building
import SketchSolver.Proofs.Space.SolveFrame

/-!
# Rolling back

A solve that fails may have moved anything that the problem lists. In a covered space all of
that is in the snapshot, and the ids in the snapshot still name the parameters that were
saved, because a solve never touches ids. So every parameter has its value from before
(`value_of_failed_solve`), wherever the solve gave up: before the first step, in the middle
of the iteration for one group of equations, or with the values of earlier groups in place.

A snapshot is a list of ids with values, and not of parameters with values. Rolling back
looks each id up in the list of the space. This is correct only under three conditions, and
`Covered` is their conjunction: what the solve may move is saved; what is saved is listed;
and listed parameters have the ids that the list finds them by. In a space that another one
has numbered in between, the third fails, and a snapshot written back would leave parameters
moved.

Writing a snapshot back is a fold, and a parameter may occur in it several times, once for
each constraint that reads it. All of its entries have the same value, so the order does not
matter, and after the fold a parameter has either the saved value or the one it had
(`value_restore`).

For a space that was just prepared this is `value_of_failed_solveNow`: values may be assigned
in between, since being covered is a matter of ids. `solve_congr` is for comparing two
solves: it says what of a space and of a store a solve reads.
-/

namespace SketchSolver.Space

variable {α : Type} [Zero α]

theorem Covered.congr {sp : Space α} {s t : Store α} (covered : Covered sp s)
    (ids : ∀ h, t.id h = s.id h) : Covered sp t :=
  ⟨covered.numbered.congr fun h _ => ids h, covered.hosted, covered.needed⟩

/-- Restoring one parameter changes one value. -/
theorem restoreOne_eq {params : ParamList} {s : Store α} {p : Handle}
    (sorted : IdList.Sorted s.id params) (mem : p ∈ params.toList) (v : α) :
    restoreOne params s (s.id p, v) = s.setValue p v := by
  unfold restoreOne
  rw [(ParamList.byId?_eq_some_iff sorted).mpr ⟨mem, rfl⟩]

/-- Restoring saved values gives the saved parameters these values, and no other one. -/
theorem value_restore {params : ParamList} {s : Store α} (k : Handle) :
    ∀ {ps : List Handle} {t : Store α}, IdList.Sorted s.id params →
    (∀ p ∈ ps, p ∈ params.toList) → (∀ h, t.id h = s.id h) →
    ((ps.map fun p => (s.id p, s.value p)).foldl (restoreOne params) t).value k =
      if k ∈ ps then s.value k else t.value k
  | [], t, _, _, _ => rfl
  | p :: ps, t, sorted, sub, ids => by
    have memp := sub p List.mem_cons_self
    have sorted' : IdList.Sorted t.id params := sorted.congr fun h _ => ids h
    have first : restoreOne params t (s.id p, s.value p) = t.setValue p (s.value p) := by
      rw [← ids p]
      exact restoreOne_eq sorted' memp (s.value p)
    rw [List.map_cons, List.foldl_cons, first, value_restore k sorted
      (fun q hq => sub q (List.mem_cons_of_mem p hq))
      (fun h => (Store.id_setValue t p h _).trans (ids h))]
    -- a later entry for the same parameter writes the same value once more
    by_cases later : k ∈ ps
    · rw [if_pos later, if_pos (List.mem_cons_of_mem p later)]
    · rw [if_neg later]
      by_cases eq : p = k
      · subst eq
        rw [Store.value_setValue_self, if_pos List.mem_cons_self]
      · rw [Store.value_setValue_ne t eq, if_neg]
        exact fun mem => (List.mem_cons.mp mem).elim (fun e => eq e.symm) later

section Solve

variable [One α] [Add α] [Sub α] [Mul α] [Div α] [Neg α] [LT α] [LE α] [BEq α]
variable [DecidableLT α] [DecidableLE α] [Elementary α]
variable {sp sp' : Space α} {sk sk' : Sketch α} {rough : Bool}

/-- The parameters that a snapshot saves. -/
def saved (sp : Space α) (s : Store α) : List Handle :=
  (sp.valid.flatMap (·.params)).filter fun p => s.id p ≠ unassigned

/-- **A solve of a covered space that fails restores every value.** -/
theorem value_of_failed_solve {e : SolveFailure α} (covered : Covered sp sk.store)
    (failed : sp.solve sk rough = (.error e, sp', sk')) (h : Handle) :
    sk'.store.value h = sk.store.value h := by
  have frame := Problem.solve_frame sp.problem rough sk.store
  have listed : ∀ p ∈ sp.saved sk.store, p ∈ sp.params.toList := by
    intro p mem
    obtain ⟨c, hc, hp⟩ := List.mem_flatMap.mp (List.mem_filter.mp mem).1
    exact covered.hosted c (valid_sub hc) p hp
  unfold solve at failed
  simp only at failed
  split at failed
  next => simp at failed
  next problem store solved =>
    rw [solved] at frame
    simp only [Prod.mk.injEq] at failed
    obtain ⟨_, rfl, rfl⟩ := failed
    have restored : (({ sp with problem } : Space α).rollback (sp.snapshot sk.store) store).value h =
        if h ∈ sp.saved sk.store then sk.store.value h else store.value h :=
      value_restore h covered.numbered.sorted listed frame.store.id
    show (({ sp with problem } : Space α).rollback (sp.snapshot sk.store) store).value h = _
    rw [restored]
    split
    next => rfl
    next unsaved =>
      -- what is not saved is no parameter of the problem, so the solve has not moved it
      refine frame.store.value fun mem => unsaved ?_
      obtain ⟨c, hc, hp⟩ := covered.needed h mem
      have assigned := covered.numbered.own.assigned (covered.hosted c (valid_sub hc) h hp)
      exact List.mem_filter.mpr ⟨List.mem_flatMap.mpr ⟨c, hc, hp⟩, by simpa using assigned⟩

/-- **Solving a covered space depends on ids, values and symbols alone**: the outcome and the space are
the same, and so are all values. -/
theorem solve_congr {sk₂ : Sketch α} (ready : sp.problem.Ready sk.store)
    (covered : Covered sp sk.store) (covered₂ : Covered sp sk₂.store)
    (same : ∀ h ∈ sp.problem.params.toList, sk₂.store.id h = sk.store.id h ∧
      (sk₂.store.get h).symbol = (sk.store.get h).symbol)
    (values : ∀ h, sk₂.store.value h = sk.store.value h) (rough : Bool) :
    (sp.solve sk₂ rough).1 = (sp.solve sk rough).1 ∧
      (sp.solve sk₂ rough).2.1 = (sp.solve sk rough).2.1 ∧
      ∀ h, (sp.solve sk₂ rough).2.2.store.value h = (sp.solve sk rough).2.2.store.value h := by
  obtain ⟨result, problem, agree⟩ := Problem.solve_congr
    (fun h mem => ⟨(same h mem).1, values h, (same h mem).2⟩) ready rough
  have frame := Problem.solve_frame sp.problem rough sk.store
  have frame₂ := Problem.solve_frame sp.problem rough sk₂.store
  -- the problem is solved alike; a failure puts back what either sketch had, and that is the same
  obtain ⟨outcome, q, s, t, solved, solved₂, agree⟩ := agree.outcomes₃ result problem
  rw [solved] at frame
  rw [solved₂] at frame₂
  cases outcome with
  | ok report =>
    have eq : sp.solve sk rough = (.ok report, { sp with problem := q, freedom := report.freedom },
        { sk with store := s }) := by
      unfold solve
      simp only
      rw [solved]
    have eq₂ : sp.solve sk₂ rough = (.ok report,
        { sp with problem := q, freedom := report.freedom }, { sk₂ with store := t }) := by
      unfold solve
      simp only
      rw [solved₂]
    rw [eq, eq₂]
    refine ⟨rfl, rfl, fun h => ?_⟩
    show t.value h = s.value h
    by_cases mem : h ∈ sp.problem.params.toList
    · exact agree.value mem
    · rw [frame.store.value mem, frame₂.store.value mem]
      exact values h
  | error e =>
    have eq : sp.solve sk rough = (.error e, { sp with problem := q },
        { sk with store := { sp with problem := q }.rollback (sp.snapshot sk.store) s }) := by
      unfold solve
      simp only
      rw [solved]
    have eq₂ : sp.solve sk₂ rough = (.error e, { sp with problem := q },
        { sk₂ with store := { sp with problem := q }.rollback (sp.snapshot sk₂.store) t }) := by
      unfold solve
      simp only
      rw [solved₂]
    have restored := value_of_failed_solve covered eq
    have restored₂ := value_of_failed_solve covered₂ eq₂
    rw [eq, eq₂]
    refine ⟨rfl, rfl, fun h => ?_⟩
    rw [restored, restored₂]
    exact values h

/-- **After a preparation that was due, a solve that fails restores every value**, whatever values were
assigned in between. -/
theorem value_of_failed_solveNow {sp₀ : Space α} {sk₀ sk₁ : Sketch α}
    {dragged : Option EntityId} {force : Bool} {e : Failure α}
    (fits : ∀ c ∈ sp₀.constraints, c.Fits)
    (due : dragged = none ∨ force = true ∨ sp₀.dragged ≠ dragged)
    (prepared : sp₀.prepare sk₀ dragged force = (.ok (), sp, sk₁))
    (ids : ∀ h, sk.store.id h = sk₁.store.id h)
    (failed : sp.solveNow sk rough = (.error e, sp', sk')) (h : Handle) :
    sk'.store.value h = sk.store.value h := by
  have covered := (covered_of_prepare fits due prepared).congr ids
  unfold solveNow at failed
  cases solved : sp.solve sk rough with
  | mk result rest =>
    rw [solved] at failed
    simp only [Prod.mk.injEq] at failed
    obtain ⟨mapped, rfl, rfl⟩ := failed
    cases result with
    | ok report => cases mapped
    | error cause => exact value_of_failed_solve covered solved h

end Solve

/-- A segment from the origin. -/
def oneSegment : Sketch Float := (({ name := "segment" } : Sketch Float).addSegment 0 0 1 1).2

/-- A space that asks twice that the segment is horizontal. -/
def twiceHorizontal : Space Float :=
  { Space.create 0 Settings.standard with
    constraints := [
      { id := ⟨1⟩, kind := .horizontal, entities := [⟨3⟩], params := [⟨0⟩, ⟨1⟩, ⟨2⟩, ⟨3⟩] },
      { id := ⟨2⟩, kind := .horizontal, entities := [⟨3⟩], params := [⟨0⟩, ⟨1⟩, ⟨2⟩, ⟨3⟩] }] }

/-- Two equal demands cannot be solved, and the segment is where it was. -/
theorem value_of_twiceHorizontal : ∃ sp sk e sp' sk',
    twiceHorizontal.prepare oneSegment none true = (.ok (), sp, sk) ∧
    sp.solveNow sk false = (.error e, sp', sk') ∧
    ∀ h, sk'.store.value h = sk.store.value h := by
  have fits : ∀ c ∈ twiceHorizontal.constraints, c.Fits := by
    unfold Constraint.Fits
    decide
  have build : twiceHorizontal.prepare oneSegment none true = twiceHorizontal.build oneSegment := by
    rw [prepare_none]
    unfold arranged
    rw [sortConstraints_eq_self (by decide)]
    rfl
  have fails : ((twiceHorizontal.build oneSegment).2.1.solveNow
      (twiceHorizontal.build oneSegment).2.2 false).1.toOption.isNone = true := by
    decide +kernel
  obtain ⟨sp, sk, built, _⟩ := build_ok oneSegment fun c hc => fits c (valid_sub hc)
  rw [built] at fails
  have prepared := build.trans built
  cases solved : sp.solveNow sk false with
  | mk result rest =>
    obtain ⟨sp', sk'⟩ := rest
    simp only [solved] at fails
    cases result with
    | ok report => simp [Except.toOption] at fails
    | error e =>
      have restored := value_of_failed_solveNow fits (Or.inl rfl) prepared (fun _ => rfl) solved
      exact ⟨sp, sk, e, sp', sk', prepared, solved, restored⟩

end SketchSolver.Space
