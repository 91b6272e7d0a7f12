import SketchSolver.Newton.Iteration
import SketchSolver.Proofs.Newton.JacobianRows

/-!
# What a run of Newton's method changes

A run moves the columns of its Jacobian and nothing else, whether it succeeds or gives up
(`run_moved`). When it succeeds, the residuals that it was written for are below the tolerance
at the values that it leaves (`run_ok`).

The frame is as narrow as it can be: only values change, and only those of columns. Ids, tags
and what is settled are as they were, so that a group can be compared before and after its
run. `Store.Moved` is that statement, and it holds of a step that stops in the middle because
a value is no number.

The success of a run says little, by design of the loop: the residuals were computed at the
values that are left and compared with the tolerance, so the statement is about the last time
the loop looked. Whether the iteration gets there is another question. It always ends, after
no more steps than allowed.

Two stores that agree on what the Jacobian reads give the same outcome, and agree afterwards
(`run_congr`). The rows and columns are given, and the loop reads only values, apart from ids
for the scales and for an error.

Each of the three results goes through a step, the iteration and the run, and the induction is
on the number of steps that are still allowed.
-/

namespace SketchSolver

variable {α : Type}

/-- Converged residuals are below the tolerance one by one. -/
theorem converged_residual [Zero α] [Neg α] [LT α] [DecidableLT α] [Add α] [Sub α] [Mul α]
    [Div α] [Elementary α] {tolerance : α} {j : Jacobian α} {env : Handle → α}
    (h : converged tolerance (j.residuals env) = true) :
    ∀ r ∈ j.rows, Scalar.abs (r.residual.eval env) < tolerance := by
  intro r hr
  unfold converged at h
  rw [List.all_eq_true] at h
  exact of_decide_eq_true (h _ (List.mem_map_of_mem hr))

namespace Newton

/-- A move changes the values of the columns. -/
theorem move_moved [Zero α] [Sub α] [BEq α] : ∀ (ps : List Handle) (dxs : List α) (s : Store α),
    Store.Moved ps s (move s ps dxs).2
  | [], dxs, s => by
    unfold move
    exact .refl _ s
  | p :: ps, [], s => .refl _ s
  | p :: ps, dx :: dxs, s => by
    have first : Store.Moved (p :: ps) s (s.setValue p (s.value p - dx)) :=
      .setValue List.mem_cons_self s _
    unfold move
    simp only
    split
    next => exact first
    next =>
      have rest := move_moved ps dxs (s.setValue p (s.value p - dx))
      exact first.trans ⟨rest.get, fun h hh => rest.frame h fun mem =>
        hh (List.mem_cons_of_mem p mem)⟩

/-- A move cannot tell apart stores that agree on its columns. -/
theorem move_congr [Zero α] [Sub α] [BEq α] {hs : List Handle} :
    ∀ {ps : List Handle} {dxs : List α} {s t : Store α},
    Store.Agree hs s t → (∀ p ∈ ps, p ∈ hs) →
    (move t ps dxs).1 = (move s ps dxs).1 ∧ Store.Agree hs (move s ps dxs).2 (move t ps dxs).2
  | [], dxs, s, t, agree, _ => by
    unfold move
    exact ⟨rfl, agree⟩
  | p :: ps, [], s, t, agree, _ => ⟨rfl, agree⟩
  | p :: ps, dx :: dxs, s, t, agree, sub => by
    have mem := sub p List.mem_cons_self
    have agree' : Store.Agree hs (s.setValue p (s.value p - dx))
        (t.setValue p (t.value p - dx)) := by
      rw [agree.value mem]
      exact agree.modify p _
    have value := agree'.value mem
    have id := agree'.id mem
    unfold move
    simp only [value, id]
    split
    next => exact ⟨rfl, agree'⟩
    next => exact move_congr agree' fun q hq => sub q (List.mem_cons_of_mem p hq)

section Run

variable [Zero α] [One α] [Add α] [Sub α] [Mul α] [Div α] [Neg α] [LT α] [BEq α]
variable [DecidableLT α] [Elementary α]
variable {settings : Settings α} {dragged : List Int} {pivotThreshold tolerance : α}
variable {scale : List α} {j : Jacobian α} {s t : Store α} {n : Nat}

omit [One α] in
theorem step_moved (pivotThreshold : α) (scale : List α) (j : Jacobian α) (s : Store α) :
    Store.Moved j.columns s (step pivotThreshold scale j s).2 := by
  unfold step
  split
  next => exact .refl _ s
  next dxs _ => exact move_moved j.columns dxs s

omit [One α] in
theorem iterate_moved : ∀ (remaining done : Nat) (s : Store α),
    Store.Moved j.columns s (iterate pivotThreshold tolerance scale j done remaining s).2
  | 0, _, s => .refl _ s
  | remaining + 1, done, s => by
    have first := step_moved pivotThreshold scale j s
    unfold iterate
    split
    next stepped =>
      rw [stepped] at first
      exact first
    next stepped =>
      rw [stepped] at first
      simp only
      split
      next => exact first
      next =>
        split
        next => exact first
        next => exact first.trans (iterate_moved remaining (done + 1) _)

/-- **A run changes the values of the columns alone.** -/
theorem run_moved (settings : Settings α) (dragged : List Int) (tolerance : α) (j : Jacobian α)
    (s : Store α) : Store.Moved j.columns s (run settings dragged tolerance j s).2 := by
  unfold run
  split
  next => exact .refl _ s
  next =>
    split
    next => exact .refl _ s
    next => exact iterate_moved settings.maxIterations 0 s

omit [One α] in
/-- The iteration stops where the residuals are below the tolerance. -/
theorem iterate_ok : ∀ {remaining done : Nat} {s : Store α},
    iterate pivotThreshold tolerance scale j done remaining s = (.ok n, t) →
    converged tolerance (j.residuals t.value) = true
  | 0, _, s, h => by simp [iterate] at h
  | remaining + 1, done, s, h => by
    unfold iterate at h
    split at h
    next => simp at h
    next u _ =>
      simp only at h
      split at h
      next => simp at h
      next =>
        split at h
        next conv =>
          cases h
          exact conv
        next => exact iterate_ok h

/-- **A run that succeeds leaves all residuals below the tolerance.** -/
theorem run_ok (h : run settings dragged tolerance j s = (.ok n, t)) :
    j.rows.length ≤ j.columns.length ∧ converged tolerance (j.residuals t.value) = true := by
  unfold run at h
  split at h
  next => simp at h
  next few =>
    refine ⟨Nat.le_of_not_lt few, ?_⟩
    split at h
    next conv =>
      cases h
      exact conv
    next => exact iterate_ok h

/-! ## Two stores -/

variable {hs : List Handle}

omit [One α] in
/-- A step has the same outcome in stores that agree on what is read. -/
theorem step_congr (pivotThreshold : α) (scale : List α) (reads : j.Reads hs)
    (agree : Store.Agree hs s t) :
    (step pivotThreshold scale j t).1 = (step pivotThreshold scale j s).1 ∧
      Store.Agree hs (step pivotThreshold scale j s).2 (step pivotThreshold scale j t).2 := by
  unfold step
  rw [Jacobian.matrix_congr reads fun p hp => agree.value hp,
    Jacobian.residuals_congr reads fun p hp => agree.value hp]
  cases Linear.leastNorm pivotThreshold (j.matrix s.value) (j.residuals s.value) scale with
  | error e => exact ⟨rfl, agree⟩
  | ok dxs => exact move_congr agree reads.columns

omit [One α] in
theorem iterate_congr (reads : j.Reads hs) : ∀ (remaining done : Nat) {s t : Store α},
    Store.Agree hs s t →
    (iterate pivotThreshold tolerance scale j done remaining t).1 =
        (iterate pivotThreshold tolerance scale j done remaining s).1 ∧
      Store.Agree hs (iterate pivotThreshold tolerance scale j done remaining s).2
        (iterate pivotThreshold tolerance scale j done remaining t).2
  | 0, _, s, t, agree => ⟨rfl, agree⟩
  | remaining + 1, done, s, t, agree => by
    obtain ⟨same, agree'⟩ := step_congr pivotThreshold scale reads agree
    obtain ⟨result, s', t', stepS, stepT, agree'⟩ := agree'.outcomes same
    unfold iterate
    rw [stepS, stepT]
    cases result with
    | error e => exact ⟨rfl, agree'⟩
    | ok _ =>
      simp only
      rw [Jacobian.residuals_congr reads fun p hp => agree'.value hp]
      split
      next => exact ⟨rfl, agree'⟩
      next =>
        split
        next => exact ⟨rfl, agree'⟩
        next => exact iterate_congr reads remaining (done + 1) agree'

/-- A run cannot tell apart stores that agree on what its Jacobian reads. -/
theorem run_congr (settings : Settings α) (dragged : List Int) (tolerance : α)
    (reads : j.Reads hs) (agree : Store.Agree hs s t) :
    (run settings dragged tolerance j t).1 = (run settings dragged tolerance j s).1 ∧
      Store.Agree hs (run settings dragged tolerance j s).2
        (run settings dragged tolerance j t).2 := by
  have scale : scales settings.draggedScale dragged t j.columns =
      scales settings.draggedScale dragged s j.columns :=
    List.map_congr_left fun p hp => by rw [agree.id (reads.columns p hp)]
  unfold run
  rw [Jacobian.residuals_congr reads fun p hp => agree.value hp, scale]
  split
  next => exact ⟨rfl, agree⟩
  next =>
    split
    next => exact ⟨rfl, agree⟩
    next => exact iterate_congr reads settings.maxIterations 0 agree

end Run

end Newton

end SketchSolver
