import SketchSolver.Newton.Iteration
import SketchSolver.Proofs.Expr.Affine
import SketchSolver.Proofs.Linear.LeastNorm
import SketchSolver.Proofs.Newton.RunFrame
import SketchSolver.Proofs.StoreFrame

/-!
# Affine residuals are solved in one step

Over an exact field with an order no value is lost, and moving the columns by a step changes
an affine residual by the sum of its derivatives times the components of the step
(`eval_move`): one column after the other, and the derivatives are the same all the way. The
step was made so that this sum is the residual, so nothing of it is left (`step_affine`).

A column may occur twice. It is then moved twice, and its derivative counts twice. Nothing
excludes this in the definition of a Jacobian, so nothing is assumed about it.

A run therefore takes one step or none (`run_affine`). None if the residuals are below the
tolerance from the start, and one otherwise, if the linear system can be solved and a step is
allowed at all; after it the residuals are zero, which is below every tolerance that is
positive. If the system cannot be solved the run gives up without having moved anything.

That the system was solved is the hypothesis that carries the proof. It says that the product
of the matrix with the step is the residual, and nothing more about the step is used, neither
that it has the least norm nor what the scales were.

Exact fields have no value that is not a number, so two of the ways in which a run can fail do
not exist here (`not_isNaN`).
-/

namespace SketchSolver.Newton

variable {K : Type} [Field K]

omit [Field K] in
/-- A value of an exact field is a number. -/
theorem not_isNaN [LinearOrder K] (x : K) : Scalar.isNaN x = false := bne_self_eq_false x

/-- Writing a value is updating the values at one place. -/
theorem setValue_eq_update (s : Store K) (p : Handle) (x : K) :
    (s.setValue p x).value = Function.update s.value p x := by
  funext q
  rw [Store.value_setValue]
  by_cases same : p = q
  · rw [if_pos same, same, Function.update_self]
  · rw [if_neg same, Function.update_of_ne (Ne.symm same)]

variable [LinearOrder K] [Elementary K] {s : Store K}

/-- **A move changes affine expressions** by their derivatives times the distances. -/
theorem eval_move : ∀ {ps : List Handle} {dxs : List K} {s : Store K}, ps.length = dxs.length →
    ∃ u, move s ps dxs = (.ok (), u) ∧ ∀ e : Expr K, e.Affine →
      e.eval u.value =
        e.eval s.value - Linear.dot (ps.map fun p => (e.derivative p).eval s.value) dxs := by
  intro ps
  induction ps with
  | nil =>
    intro dxs s _
    refine ⟨s, by rw [move]; simp, fun e _ => ?_⟩
    rw [List.map_nil, Linear.dot_nil, sub_zero]
  | cons p ps ih =>
    intro dxs s same
    cases dxs with
    | nil => exact absurd same (Nat.succ_ne_zero _)
    | cons dx dxs =>
      obtain ⟨u, moved, changes⟩ := ih (s := s.setValue p (s.value p - dx)) (Nat.succ.inj same)
      refine ⟨u, ?_, fun e affine => ?_⟩
      · rw [move]
        simp only [not_isNaN]
        exact moved
      -- derivatives of an affine expression are the same after the first column was moved
      · have slopes : (ps.map fun q => (e.derivative q).eval (s.setValue p (s.value p - dx)).value) =
            ps.map fun q => (e.derivative q).eval s.value :=
          List.map_congr_left fun q _ => affine.eval_derivative q
        rw [changes e affine, slopes, setValue_eq_update, affine.eval_update, List.map_cons,
          Linear.dot_cons, sub_sub]

variable [IsStrictOrderedRing K] {j : Jacobian K} {pivotThreshold tolerance : K} {scale : List K}
variable {b : List K}

/-- **A step leaves nothing of affine residuals**, or it fails and moves nothing. -/
theorem step_affine {tag limit : Nat} {s₀ : Store K} {params : ParamList}
    {equations : EquationList K} (pos : 0 < pivotThreshold)
    (written : Jacobian.write tag s₀ params equations limit = .ok j)
    (affine : ∀ r ∈ j.rows, r.residual.Affine) (weighted : scale.length = j.columns.length) :
    (∃ u, step pivotThreshold scale j s = (.ok (), u) ∧ ∀ r ∈ j.residuals u.value, r = 0) ∨
      ∃ e, step pivotThreshold scale j s = (.error (.singular e), s) := by
  unfold step
  cases solved : Linear.leastNorm pivotThreshold (j.matrix s.value) (j.residuals s.value) scale with
  | error e => exact Or.inr ⟨e, rfl⟩
  | ok dxs =>
    have wide := Jacobian.width_matrix written s.value
    have rows : (j.residuals s.value).length = (j.matrix s.value).length :=
      (List.length_map _).trans (j.length_matrix s.value).symm
    obtain ⟨length, product⟩ := Linear.map_dot_leastNorm pos wide rows weighted solved
    obtain ⟨u, moved, changes⟩ := eval_move (s := s) length.symm
    refine Or.inl ⟨u, moved, fun x hx => ?_⟩
    obtain ⟨r, hr, rfl⟩ := List.mem_map.mp hx
    -- the change is what the step was made for: the residual itself
    have entries : r.entries = j.columns.map (Jacobian.entry r.residual) := by
      rw [(Jacobian.write_ok written).2] at hr
      obtain ⟨e, -, rfl⟩ := List.mem_map.mp hr
      rfl
    have slopes : r.entries.map (·.eval s.value) =
        j.columns.map fun p => (r.residual.derivative p).eval s.value := by
      rw [entries, List.map_map]
      exact List.map_congr_left fun p _ => Jacobian.eval_entry r.residual p s.value
    unfold Jacobian.matrix Jacobian.residuals at product
    rw [List.map_map, List.map_inj_left] at product
    have change := product r hr
    rw [Function.comp_apply, slopes] at change
    rw [changes r.residual (affine r hr), change, sub_self]

omit [Elementary K] in
/-- Residuals are below the tolerance if each of them is. -/
theorem converged_iff : converged tolerance b = true ↔ ∀ r ∈ b, |r| < tolerance := by
  unfold converged
  rw [List.all_eq_true]
  exact forall₂_congr fun r _ => by rw [decide_eq_true_iff, Scalar.abs_eq_abs]

omit [IsStrictOrderedRing K] [Elementary K] [Field K] in
theorem not_any_isNaN (b : List K) : b.any Scalar.isNaN = false := by
  rw [List.any_eq_false]
  intro x _
  rw [not_isNaN]
  decide

/-- **Affine residuals are solved in one step.** In exact arithmetic, a run on a Jacobian with no more
rows than columns and affine residuals changes nothing when all residuals are below the tolerance
already. Otherwise it takes one step, after which every residual is zero, or fails because its
rows depend on each other, and changes nothing. -/
theorem run_affine {settings : Settings K} {tag limit : Nat} {s₀ : Store K} {params : ParamList}
    {equations : EquationList K} (dragged : List Int)
    (written : Jacobian.write tag s₀ params equations limit = .ok j)
    (few : j.rows.length ≤ j.columns.length) (affine : ∀ r ∈ j.rows, r.residual.Affine)
    (tolerant : 0 < tolerance) (pivot : 0 < settings.pivotThreshold)
    (steps : 1 ≤ settings.maxIterations) (s : Store K) :
    ((∀ r ∈ j.residuals s.value, |r| < tolerance) →
      run settings dragged tolerance j s = (.ok 0, s)) ∧
    ((¬∀ r ∈ j.residuals s.value, |r| < tolerance) →
      (∃ u, run settings dragged tolerance j s = (.ok 1, u) ∧ ∀ r ∈ j.residuals u.value, r = 0) ∨
        ∃ e, run settings dragged tolerance j s = (.error (.singular e), s)) := by
  unfold run
  rw [if_neg (not_lt.mpr few)]
  refine ⟨fun small => by rw [if_pos (converged_iff.mpr small)], fun large => ?_⟩
  rw [if_neg fun conv => large (converged_iff.mp conv)]
  obtain ⟨more, hmore⟩ := Nat.exists_eq_add_of_le' steps
  rw [hmore, iterate]
  have weighted : (scales settings.draggedScale dragged s j.columns).length = j.columns.length :=
    List.length_map _
  rcases step_affine (s := s) pivot written affine weighted with ⟨u, stepped, gone⟩ | ⟨e, failed⟩
  · have conv : converged tolerance (j.residuals u.value) = true :=
      converged_iff.mpr fun r hr => by rw [gone r hr, abs_zero]; exact tolerant
    refine Or.inl ⟨u, ?_, gone⟩
    rw [stepped]
    simp only [not_any_isNaN, conv]
    rfl
  · refine Or.inr ⟨e, ?_⟩
    rw [failed]

/-! ## A run over the rational numbers -/

/-- Rational numbers are scalars for equations that apply no elementary function. -/
local instance affineRationals : Elementary ℚ := ⟨id, id, id⟩

/-- Two unknowns. -/
def twoShares : Store ℚ :=
  ⟨#[{ id := 1, value := 4, symbol := "x" }, { id := 2, value := 1, symbol := "y" }]⟩

/-- A quarter of the first and of twice the second is three. -/
def quarterSum : Equation ℚ where
  id := 1
  expr := .binary .minus
    (.binary .div (.binary .plus (.param ⟨0⟩) (.binary .times (.const 2) (.param ⟨1⟩))) (.const 4))
    (.const 3)

theorem affine_quarterSum : quarterSum.expr.Affine := by
  have sum : Expr.Affine (.binary .plus (.param ⟨0⟩)
      (.binary .times (.const (2 : ℚ)) (.param ⟨1⟩))) :=
    .plus (.param ⟨0⟩) (.scaled rfl (.param ⟨1⟩))
  exact .minus (.div sum rfl fun _ => four_ne_zero) (.constant rfl)

/-- Settings with a small pivot threshold. -/
def fewSteps : Settings ℚ where
  maxUnknowns := 10
  maxIterations := 1
  convergenceTolerance := 1 / 10 ^ 8
  roughTolerance := 1 / 10 ^ 6
  pivotThreshold := 1 / 10 ^ 20
  rankThreshold := 0
  draggedScale := 1 / 20

/-- One equation for two unknowns, of which the second is dragged. -/
theorem run_affine_quarterSum :
    ∃ j, Jacobian.write 0 twoShares ⟨#[⟨0⟩, ⟨1⟩]⟩ ⟨#[quarterSum]⟩ 10 = .ok j ∧
      j.rows.length ≤ j.columns.length ∧ (∀ r ∈ j.rows, r.residual.Affine) ∧
      (0 : ℚ) < 1 / 10 ^ 8 ∧ 0 < fewSteps.pivotThreshold ∧ 1 ≤ fewSteps.maxIterations ∧
      (¬∀ r ∈ j.residuals twoShares.value, |r| < 1 / 10 ^ 8) ∧
      ∃ u, run fewSteps [2] (1 / 10 ^ 8) j twoShares = (.ok 1, u) ∧
        ∀ r ∈ j.residuals u.value, r = 0 := by
  let j : Jacobian ℚ := ⟨[⟨0⟩, ⟨1⟩],
    [⟨1, quarterSum.expr, [⟨0⟩, ⟨1⟩].map (Jacobian.entry quarterSum.expr)⟩]⟩
  have written : Jacobian.write 0 twoShares ⟨#[⟨0⟩, ⟨1⟩]⟩ ⟨#[quarterSum]⟩ 10 = .ok j := by cbv
  have affine : ∀ r ∈ j.rows, r.residual.Affine := by
    intro r hr
    rw [List.mem_singleton.mp hr]
    exact affine_quarterSum
  have tolerant : (0 : ℚ) < 1 / 10 ^ 8 := by norm_num
  have pivot : 0 < fewSteps.pivotThreshold := by norm_num [fewSteps]
  have large : ¬∀ r ∈ j.residuals twoShares.value, |r| < 1 / 10 ^ 8 := by decide +kernel
  have steps : 1 ≤ fewSteps.maxIterations := le_refl 1
  have few : j.rows.length ≤ j.columns.length := by decide
  refine ⟨j, written, few, affine, tolerant, pivot, steps, large, ?_⟩
  rcases (run_affine [2] written few affine tolerant pivot steps twoShares).2 large with
    solved | ⟨e, failed⟩
  · exact solved
  -- the other outcome is excluded by running it
  · have solves : (run fewSteps [2] (1 / 10 ^ 8) j twoShares).1.isOk = true := by decide +kernel
    rw [failed] at solves
    cases solves

end SketchSolver.Newton
