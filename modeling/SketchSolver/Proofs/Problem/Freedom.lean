import SketchSolver.Proofs.Linear.Orthogonal
import SketchSolver.Proofs.Problem.MainSystem

/-!
# Whether the freedom can be negative

The freedom that a solve reports is the number of columns of its main system less the number
of rows. It is computed once the rows have passed the rank test (`Jacobian.Independent`),
before Newton's method looks whether there are too many of them. In exact arithmetic the test
keeps too many rows out exactly when its threshold is not negative (`rank_test_of_mainSystem`).

A solve that gets past the test with more rows than columns fails as overdetermined, and it
fails so in no other case (`Problem.overdetermined_iff`). So a report tells the true freedom
over any scalars (`Problem.freedom_of_solve`), doubles included. But with doubles too many
rows do get past the test: under a negative threshold, and under the standard one where what
is left of a row is the rounding error of large numbers (`more_rows_than_columns`).

Here the difference is one of natural numbers and is zero where it would be negative. The
program computes it on machine integers before the count is looked at, so a solve that fails
as overdetermined here is one that does not return there, or returns after the number has
wrapped around. This is why the condition is stated about the rank test, which comes before
the subtraction.

For exact arithmetic there are two cases of different kinds. If the threshold is not negative,
rows that count are independent, and there cannot be more independent rows than columns. If
it is negative, every row counts, and a system with more rows than columns passes the test. That the main system of a solve can have more rows than columns
at all is the part about `scaledPair`: two equations for one unknown, both of which are left
over by merging.

Failures are told apart by `sizes?` and `excess?`, partial functions that are defined on one
constructor only. A lemma about them covers all the other failures without naming them.
-/

namespace SketchSolver

variable {α : Type}

/-! ## Failing as overdetermined -/

/-- The numbers of equations and unknowns, where there were too many equations. -/
def NewtonFailure.sizes? : NewtonFailure α → Option (Nat × Nat)
  | .overdetermined equations unknowns => some (equations, unknowns)
  | _ => none

/-- Only one failure of Newton's method tells sizes. -/
theorem NewtonFailure.sizes?_eq_some {e : NewtonFailure α} {m n : Nat} :
    e.sizes? = some (m, n) ↔ e = .overdetermined m n := by
  cases e <;> simp [sizes?]

/-- The numbers of rows and columns that an outcome tells, where there were too many rows. -/
def Problem.excess? : Except (SolveFailure α) Report → Option (Nat × Nat)
  | .error (.newton e) => e.sizes?
  | _ => none

/-- Only one failure of a solve tells an excess. -/
theorem Problem.excess?_eq_some {outcome : Except (SolveFailure α) Report} {m n : Nat} :
    excess? outcome = some (m, n) ↔ outcome = .error (.newton (.overdetermined m n)) := by
  cases outcome with
  | ok report => simp [excess?]
  | error e => cases e <;> simp [excess?, NewtonFailure.sizes?_eq_some]

namespace Newton

/-- Moving the unknowns does not fail for the number of equations. -/
theorem move_sizes? [Zero α] [Sub α] [BEq α] {e : NewtonFailure α} {u : Store α} :
    ∀ {ps : List Handle} {dxs : List α} {s : Store α}, move s ps dxs = (.error e, u) →
    e.sizes? = none
  | [], _, _, moved => by simp [move] at moved
  | _ :: _, [], _, moved => by simp [move] at moved
  | p :: ps, dx :: dxs, s, moved => by
    unfold move at moved
    simp only at moved
    split at moved
    next =>
      simp only [Prod.mk.injEq, Except.error.injEq] at moved
      rw [← moved.1]
      rfl
    next => exact move_sizes? moved

section Run

variable [Zero α] [One α] [Add α] [Sub α] [Mul α] [Div α] [Neg α] [LT α] [BEq α]
variable [DecidableLT α] [Elementary α] {settings : Settings α} {dragged : List Int}
variable {pivotThreshold tolerance : α} {scale : List α} {j : Jacobian α} {s t : Store α}
variable {e : NewtonFailure α}

omit [One α] in
theorem step_sizes? (stepped : step pivotThreshold scale j s = (.error e, t)) :
    e.sizes? = none := by
  unfold step at stepped
  split at stepped
  next =>
    simp only [Prod.mk.injEq, Except.error.injEq] at stepped
    rw [← stepped.1]
    rfl
  next => exact move_sizes? stepped

omit [One α] in
/-- The iteration does not fail for the number of equations: it is compared before it starts. -/
theorem iterate_sizes? : ∀ {remaining done : Nat} {s : Store α},
    iterate pivotThreshold tolerance scale j done remaining s = (.error e, t) → e.sizes? = none
  | 0, _, _, ran => by
    simp only [iterate, Prod.mk.injEq, Except.error.injEq] at ran
    rw [← ran.1]
    rfl
  | remaining + 1, done, s, ran => by
    unfold iterate at ran
    split at ran
    next e' u stepped =>
      simp only [Prod.mk.injEq, Except.error.injEq] at ran
      rw [← ran.1]
      exact step_sizes? stepped
    next =>
      simp only at ran
      split at ran
      next =>
        simp only [Prod.mk.injEq, Except.error.injEq] at ran
        rw [← ran.1]
        rfl
      next =>
        split at ran
        next => simp at ran
        next => exact iterate_sizes? ran

/-- A run fails as overdetermined before it changes anything, and only where there are more rows
than columns. -/
theorem run_overdetermined_iff {m n : Nat} :
    run settings dragged tolerance j s = (.error (.overdetermined m n), t) ↔
      n < m ∧ j.rows.length = m ∧ j.columns.length = n ∧ s = t := by
  unfold run
  split
  next many =>
    simp only [Prod.mk.injEq, Except.error.injEq, NewtonFailure.overdetermined.injEq]
    constructor
    · rintro ⟨⟨rows, columns⟩, same⟩
      rw [rows, columns] at many
      exact ⟨many, rows, columns, same⟩
    · rintro ⟨_, rows, columns, same⟩
      exact ⟨⟨rows, columns⟩, same⟩
  next few =>
    constructor
    · intro ran
      split at ran
      next => simp at ran
      next =>
        have := iterate_sizes? ran
        simp [NewtonFailure.sizes?] at this
    · rintro ⟨lt, rows, columns, _⟩
      rw [rows, columns] at few
      exact absurd lt few

end Run

end Newton

namespace Jacobian

variable [Zero α] [One α] [Add α] [Sub α] [Mul α] [Div α] [Neg α] [Elementary α]
variable [LT α] [DecidableLT α] [LE α] [DecidableLE α]

/-- The rank test: all rows count as independent at the values of the moment. -/
def Independent (j : Jacobian α) (threshold : α) (s : Store α) : Prop :=
  Linear.rank threshold (j.matrix s.value) = j.rows.length

end Jacobian

section Solve

variable [Zero α] [One α] [Add α] [Sub α] [Mul α] [Div α] [Neg α] [LT α] [LE α] [BEq α]
variable [DecidableLT α] [DecidableLE α] [Elementary α]
variable {p q : Problem α} {s t u : Store α} {rough : Bool} {j : Jacobian α} {m n : Nat}

namespace Problem

omit [LE α] [DecidableLE α] in
/-- The phases before the main system keep the settings. -/
theorem MainSystem.settings (main : p.MainSystem rough s q t j) : q.settings = p.settings := by
  obtain ⟨groups, equations, v, alone, _, alones⟩ := main.reached
  have frame := solveAlones_frame { p with equations } (p.settings.tolerance rough) v
  rw [alones] at frame
  exact frame.settings

/-- A failure of the main system is the failure of the solve. -/
theorem MainSystem.solve_of_error {e : SolveFailure α} (main : p.MainSystem rough s q t j)
    (failed : q.solveTogether (p.settings.tolerance rough) t = (.error e, u)) :
    p.solve rough s = (.error e, q, u) := by
  obtain ⟨groups, equations, v, alone, merged, alones⟩ := main.reached
  unfold solve
  simp only
  rw [show EqualGroup.merge (p.resetScratch s).2 (p.resetScratch s).1.params
    (p.resetScratch s).1.equations (p.resetScratch s).1.dragged = _ from merged]
  unfold solveMerged
  simp only
  rw [show solveAlones { (p.resetScratch s).1 with equations } _ v = _ from alones]
  simp only
  rw [failed]

/-- The main system is overdetermined when it passes the rank test with more rows than columns. -/
theorem solveTogether_overdetermined_iff {tolerance : α} :
    q.solveTogether tolerance t = (.error (.newton (.overdetermined m n)), u) ↔
      ∃ j, Jacobian.write 0 t q.params q.equations q.settings.maxUnknowns = .ok j ∧
        j.Independent q.settings.rankThreshold t ∧
        n < m ∧ j.rows.length = m ∧ j.columns.length = n ∧ t = u := by
  unfold solveTogether
  constructor
  · intro solved
    split at solved
    next => simp at solved
    next j written =>
      simp only at solved
      split at solved
      next => simp at solved
      next independent =>
        split at solved
        next e v ran =>
          simp only [Prod.mk.injEq, Except.error.injEq, SolveFailure.newton.injEq] at solved
          obtain ⟨rfl, rfl⟩ := solved
          exact ⟨j, written, not_not.mp independent, Newton.run_overdetermined_iff.mp ran⟩
        next => simp at solved
  · rintro ⟨j, written, independent, sizes⟩
    unfold Jacobian.Independent at independent
    rw [written]
    simp only
    rw [if_neg (not_not_intro independent), Newton.run_overdetermined_iff.mpr sizes]

omit [LE α] [DecidableLE α] in
/-- Failures of a group are reported with its number. -/
theorem solveAlone_ne_newton {tolerance : α} {group : Nat} {h : Handle} {e : NewtonFailure α} :
    p.solveAlone tolerance group h s ≠ (.error (.newton e), t) := by
  unfold solveAlone
  split
  next => simp
  next => split <;> simp

omit [LE α] [DecidableLE α] in
/-- A failure in a group is reported with its number, not as one of the main system. -/
theorem solveAlonesFrom_ne_newton {tolerance : α} {e : NewtonFailure α} :
    ∀ {ids : List Int} {group : Nat} {p : Problem α} {s : Store α},
    solveAlonesFrom tolerance group ids p s ≠ (.error (.newton e), q, t)
  | [], _, _, _ => by simp [solveAlonesFrom]
  | id :: ids, group, p, s => by
    unfold solveAlonesFrom
    split
    next => exact solveAlonesFrom_ne_newton
    next h _ =>
      simp only
      split
      next e' u solved =>
        intro eq
        simp only [Prod.mk.injEq, Except.error.injEq] at eq
        rw [eq.1] at solved
        exact solveAlone_ne_newton solved
      next => exact solveAlonesFrom_ne_newton

/-- **A solve fails as overdetermined exactly when its main system passes the rank test with more
rows than columns.** -/
theorem overdetermined_iff :
    p.solve rough s = (.error (.newton (.overdetermined m n)), q, t) ↔
      ∃ j, p.MainSystem rough s q t j ∧ j.Independent p.settings.rankThreshold t ∧
        n < m ∧ j.rows.length = m ∧ j.columns.length = n := by
  constructor
  · intro solved
    unfold solve at solved
    simp only at solved
    split at solved
    next => simp at solved
    next groups equations v merged =>
      unfold solveMerged at solved
      split at solved
      next e q' t' alones =>
        simp only [Prod.mk.injEq, Except.error.injEq] at solved
        obtain ⟨rfl, rfl, rfl⟩ := solved
        unfold solveAlones at alones
        split at alones
        next from' =>
          simp only [Prod.mk.injEq, Except.error.injEq] at alones
          rw [alones.1] at from'
          -- a failure before the main system is told as one of a group
          exact absurd from' solveAlonesFrom_ne_newton
        next => simp at alones
      next alone q' t' alones =>
        split at solved
        next e u together =>
          simp only [Prod.mk.injEq, Except.error.injEq] at solved
          obtain ⟨rfl, rfl, rfl⟩ := solved
          obtain ⟨j, written, independent, sizes⟩ := solveTogether_overdetermined_iff.mp together
          obtain ⟨lt, rows, columns, rfl⟩ := sizes
          have main : p.MainSystem rough s q' t' j :=
            ⟨⟨groups, equations, v, alone, merged, alones⟩, written⟩
          exact ⟨j, main, main.settings ▸ independent, lt, rows, columns⟩
        next => simp at solved
  · rintro ⟨j, main, independent, lt, rows, columns⟩
    exact main.solve_of_error (solveTogether_overdetermined_iff.mpr
      ⟨j, main.written, main.settings.symm ▸ independent, lt, rows, columns, rfl⟩)

/-- **A solve that succeeds has no more rows than columns**, whatever the scalars are, and what it
reports as its freedom is how many fewer. -/
theorem freedom_of_solve {report : Report} (solved : p.solve rough s = (.ok report, q, u)) :
    ∃ t j, p.MainSystem rough s q t j ∧ j.Independent p.settings.rankThreshold t ∧
      j.rows.length ≤ j.columns.length ∧
      report.freedom + j.rows.length = j.columns.length := by
  obtain ⟨groups, equations, v, alone, t, j, _, _, merged, alones, together, _, rfl⟩ :=
    solve_ok solved
  obtain ⟨written, independent, ran⟩ := solveTogether_ok together
  have main : p.MainSystem rough s q t j :=
    ⟨⟨groups, equations, v, alone, merged, alones⟩, written⟩
  have few := (Newton.run_ok ran).1
  exact ⟨t, j, main, main.settings ▸ independent, few, Nat.sub_add_cancel few⟩

end Problem

end Solve

/-! ## Exact arithmetic -/

section Exact

variable {K : Type} [Field K] [LinearOrder K] [IsStrictOrderedRing K] [Elementary K]
variable {p q : Problem K} {s t : Store K} {rough : Bool} {j : Jacobian K}

/-- **In exact arithmetic the sign of the threshold decides.** If it is not negative, a main system
that passes the rank test has no more rows than columns. If it is negative, every main system
passes, and one with more rows than columns is left for Newton's method to refuse. -/
theorem rank_test_of_mainSystem (main : p.MainSystem rough s q t j) :
    (0 ≤ p.settings.rankThreshold → j.Independent p.settings.rankThreshold t →
      j.rows.length ≤ j.columns.length) ∧
    (p.settings.rankThreshold < 0 → j.Independent p.settings.rankThreshold t ∧
      (j.columns.length < j.rows.length → p.solve rough s =
        (.error (.newton (.overdetermined j.rows.length j.columns.length)), q, t))) := by
  refine ⟨fun nonneg independent => ?_, fun neg => ?_⟩
  · unfold Jacobian.Independent at independent
    rw [← independent]
    exact Linear.rank_le_width nonneg (Jacobian.width_matrix main.written t.value)
  · have independent : j.Independent p.settings.rankThreshold t := by
      unfold Jacobian.Independent
      rw [Linear.rank_of_neg neg, Jacobian.length_matrix]
    exact ⟨independent, fun many =>
      Problem.overdetermined_iff.mpr ⟨j, main, independent, many, rfl, rfl⟩⟩

end Exact

/-! ## Two equations for one unknown -/

section Pair

variable [Zero α] [One α]

/-- Two parameters. -/
def zeroOne : Store α :=
  ⟨#[{ id := 1, value := 0, symbol := "x" }, { id := 2, value := 1, symbol := "y" }]⟩

/-- Two parameters are equal, and so one unknown is left, for two more equations. They depend on
each other: one is linear with three times a factor, the other with seven times the same. -/
def scaledPair (factor : α) : EquationList α :=
  let x := Expr.param ⟨0⟩
  let y := Expr.param ⟨1⟩
  let three := Expr.binary .plus x (.binary .plus y y)
  let four := Expr.binary .plus (.binary .plus x x) (.binary .plus y y)
  ⟨#[{ id := 1, expr := .binary .minus x y },
    { id := 2, expr := .binary .minus (.binary .times (.const factor) three) (.const 1) },
    { id := 3, expr := .binary .minus
        (.binary .times (.const factor) (.binary .plus three four)) (.const 1) }]⟩

/-- One equation for both parameters. -/
def evenSum : EquationList α :=
  ⟨#[{ id := 1, expr := .binary .minus (.binary .plus (.param ⟨0⟩) (.param ⟨1⟩)) (.const 1) }]⟩

/-- The two parameters have ids of their own. -/
theorem ownIds_zeroOne {hs : List Handle} (mem : ∀ h ∈ hs, h = ⟨0⟩ ∨ h = ⟨1⟩) :
    OwnIds (zeroOne : Store α) hs := by
  have first : (zeroOne : Store α).id ⟨0⟩ = 1 := rfl
  have second : (zeroOne : Store α).id ⟨1⟩ = 2 := rfl
  refine ⟨fun h hh => ?_, fun h hh k hk same => ?_⟩
  · rcases mem h hh with rfl | rfl
    · exact first.symm ▸ Int.one_pos
    · exact second.symm ▸ (by decide : (0 : Int) < 2)
  · rcases mem h hh with rfl | rfl <;> rcases mem k hk with rfl | rfl
    · rfl
    · exact absurd (first.symm.trans (same.trans second)) (by decide)
    · exact absurd (second.symm.trans (same.trans first)) (by decide)
    · rfl

theorem ownIds_scaledPair (factor : α) :
    OwnIds (zeroOne : Store α) (Problem.mentioned (scaledPair factor)) :=
  ownIds_zeroOne (by simp [Problem.mentioned, scaledPair, IdList.toList, Expr.params])

theorem ownIds_evenSum :
    OwnIds (zeroOne : Store α) (Problem.mentioned (evenSum : EquationList α)) :=
  ownIds_zeroOne (by simp [Problem.mentioned, evenSum, IdList.toList, Expr.params])

variable [Add α] [Sub α] [Mul α] [Div α] [Neg α] [LT α] [LE α] [BEq α]
variable [DecidableLT α] [DecidableLE α] [Elementary α]

/-- What an outcome tells of too many rows holds of a main system that passed the rank test. -/
theorem Problem.mainSystem_of_excess {problem : Problem α} {s : Store α} {rough : Bool}
    {equations : EquationList α} {m n : Nat} (own : OwnIds s (mentioned equations))
    (told : excess? ((problem.load s equations []).2.solve rough s).1 = some (m, n)) :
    ∃ p q t j, problem.load s equations [] = (.ok (), p) ∧ p.settings = problem.settings ∧
      p.MainSystem rough s q t j ∧ j.Independent p.settings.rankThreshold t ∧
      n < m ∧ j.rows.length = m ∧ j.columns.length = n := by
  obtain ⟨params, loaded, _⟩ := load_ok problem own []
  rw [loaded] at told
  obtain ⟨j, main, independent, sizes⟩ :=
    overdetermined_iff.mp (Prod.ext (excess?_eq_some.mp told) rfl)
  exact ⟨_, _, _, j, loaded, rfl, main, independent, sizes⟩

end Pair

/-- Settings under which every row counts. -/
def looseSettings : Settings Float := { Settings.standard with rankThreshold := -1 }

/-- **Doubles let too many rows pass**, under a negative threshold as well as under the standard one
with large factors. -/
theorem more_rows_than_columns :
    (∃ p q t j, ({ settings := looseSettings } : Problem Float).load zeroOne (scaledPair 1) [] =
        (.ok (), p) ∧ p.settings = looseSettings ∧ p.MainSystem false zeroOne q t j ∧
      j.Independent p.settings.rankThreshold t ∧ ¬ j.rows.length ≤ j.columns.length) ∧
    ∃ p q t j, ({ settings := Settings.standard } : Problem Float).load zeroOne (scaledPair 1e12)
        [] = (.ok (), p) ∧ p.settings = Settings.standard ∧ p.MainSystem false zeroOne q t j ∧
      j.Independent p.settings.rankThreshold t ∧ ¬ j.rows.length ≤ j.columns.length := by
  have loose : Problem.excess? ((({ settings := looseSettings } : Problem Float).load zeroOne
      (scaledPair 1) []).2.solve false zeroOne).1 = some (2, 1) := by
    decide +kernel
  have large : Problem.excess? ((({ settings := Settings.standard } : Problem Float).load zeroOne
      (scaledPair 1e12) []).2.solve false zeroOne).1 = some (2, 1) := by
    decide +kernel
  refine ⟨?_, ?_⟩
  · obtain ⟨p, q, t, j, loaded, same, main, independent, lt, rows, columns⟩ :=
      Problem.mainSystem_of_excess (ownIds_scaledPair 1) loose
    exact ⟨p, q, t, j, loaded, same, main, independent, by rw [rows, columns]; decide⟩
  · obtain ⟨p, q, t, j, loaded, same, main, independent, lt, rows, columns⟩ :=
      Problem.mainSystem_of_excess (ownIds_scaledPair 1e12) large
    exact ⟨p, q, t, j, loaded, same, main, independent, by rw [rows, columns]; decide⟩

/-- Rational numbers are scalars for equations that apply no elementary function. -/
local instance linearRationals : Elementary ℚ := ⟨id, id, id⟩

/-- The standard settings but for the threshold. -/
def rationalSettings (rankThreshold : ℚ) : Settings ℚ where
  maxUnknowns := 1024
  maxIterations := 10
  convergenceTolerance := 1 / 10 ^ 8
  roughTolerance := 1 / 10 ^ 6
  pivotThreshold := 1 / 10 ^ 20
  rankThreshold := rankThreshold
  draggedScale := 1 / 20

/-- One equation for two unknowns passes under a threshold of zero. Two equations for one unknown
pass under a negative threshold, and are refused afterwards. -/
theorem rank_test_rationals :
    (∃ p q t j, ({ settings := rationalSettings 0 } : Problem ℚ).load zeroOne evenSum [] =
        (.ok (), p) ∧
      p.MainSystem false zeroOne q t j ∧ j.rows.length ≤ j.columns.length) ∧
    ∃ p q t j, ({ settings := rationalSettings (-1) } : Problem ℚ).load zeroOne (scaledPair 1) [] =
        (.ok (), p) ∧
      p.MainSystem false zeroOne q t j ∧ j.Independent (-1) t ∧
      p.solve false zeroOne = (.error (.newton (.overdetermined 2 1)), q, t) := by
  refine ⟨?_, ?_⟩
  · obtain ⟨params, loaded, _⟩ :=
      Problem.load_ok { settings := rationalSettings 0 } ownIds_evenSum []
    have solves : ((({ settings := rationalSettings 0 } : Problem ℚ).load zeroOne evenSum
        []).2.solve false zeroOne).1.toOption.map (·.unknowns) = some 2 := by
      decide +kernel
    rw [loaded] at solves
    obtain ⟨report, q, u, solved, _⟩ := Problem.solve_of_toOption solves
    obtain ⟨t, j, main, independent, _⟩ := Problem.freedom_of_solve solved
    exact ⟨_, q, t, j, loaded, main, (rank_test_of_mainSystem main).1 le_rfl independent⟩
  · have told : Problem.excess? ((({ settings := rationalSettings (-1) } : Problem ℚ).load zeroOne
        (scaledPair 1) []).2.solve false zeroOne).1 = some (2, 1) := by
      decide +kernel
    obtain ⟨p, q, t, j, loaded, same, main, _, lt, rows, columns⟩ :=
      Problem.mainSystem_of_excess (ownIds_scaledPair 1) told
    have threshold : p.settings.rankThreshold = -1 := by rw [same]; rfl
    obtain ⟨independent, refused⟩ := (rank_test_of_mainSystem main).2 (by rw [threshold]; decide)
    have refused := refused (by rw [rows, columns]; exact lt)
    rw [rows, columns] at refused
    exact ⟨p, q, t, j, loaded, main, threshold ▸ independent, refused⟩

end SketchSolver
