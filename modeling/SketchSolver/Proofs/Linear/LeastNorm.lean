import SketchSolver.Proofs.Linear.Elimination

/-!
# The step has the least weighted norm

For a matrix `A` and scales `S`, `leastNorm` solves `B Bᵗ z = b` with `B = A S`, and returns
`x = S Bᵗ z` (`leastNorm_ok`). So `A x = B Bᵗ z = b`, whatever the scales are.

With scales other than zero, any other solution `y` has `B (y / S) = b` as well. What it
differs by from `x / S = Bᵗ z` is orthogonal to the rows of `B`, so the squares add up
(`dotProduct_self_of_rows`), and `x` is the one solution for which the sum of `(x / S)²` is
least.

The sum that is made least counts each component in units of its scale (`effort`). A component
with a small scale is expensive to move, so the scale of a dragged parameter decides whether
the solver holds on to it or prefers to move it: below one it stays, above one it goes first.

Minimality and uniqueness come from one equation between squares and not from calculus. Over
an ordered field a sum of squares is zero only if every square is, and this is the only place
where the order is used.

If the rows are dependent then `B Bᵗ` is singular, and there is no step, although the system
may have solutions. The statements are about the case that elimination has succeeded; that it
does so for independent rows and a small threshold is the subject of `Linear.Elimination`.

The first part of the module says what the operations on lists are in terms of matrices.
-/

namespace SketchSolver.Linear

open scoped Matrix

variable {K : Type} [Field K] {m n : Nat}

/-! ## The operations on matrices -/

/-- The columns are multiplied by their scales. -/
theorem scaleColumns_rowsOf (A : Matrix (Fin m) (Fin n) K) (s : Fin n → K) :
    scaleColumns (rowsOf A) (List.ofFn s) = rowsOf (A * Matrix.diagonal s) := by
  unfold scaleColumns rowsOf
  rw [List.map_ofFn]
  congr 1
  funext i
  rw [Function.comp_apply, zipWith_ofFn]
  congr 1
  funext j
  rw [Matrix.mul_diagonal]

/-- Adding up rows with their weights, from any sum on. -/
theorem foldl_weighted : ∀ {m : Nat} (rows : Fin m → Fin n → K) (z : Fin m → K) (acc : Fin n → K),
    (List.zip (List.ofFn fun i => List.ofFn (rows i)) (List.ofFn z)).foldl
      (fun acc (row, w) => List.zipWith (fun a r => a + r * w) acc row) (List.ofFn acc) =
        List.ofFn (acc + ∑ i, z i • rows i) := by
  intro m
  induction m with
  | zero =>
    intro rows z acc
    rw [Finset.univ_eq_empty, Finset.sum_empty, add_zero]
    rfl
  | succ m ih =>
    intro rows z acc
    have first : List.zipWith (fun a r => a + r * z 0) (List.ofFn acc) (List.ofFn (rows 0)) =
        List.ofFn (acc + z 0 • rows 0) := by
      rw [zipWith_ofFn]
      congr 1
      funext j
      rw [Pi.add_apply, Pi.smul_apply, smul_eq_mul, mul_comm]
    rw [List.ofFn_succ, List.ofFn_succ, List.zip_cons_cons, List.foldl_cons]
    simp only [first]
    rw [ih, Fin.sum_univ_succ, add_assoc]

/-- The combination of the rows is the product with the weights from the left. -/
theorem combine_rowsOf (A : Matrix (Fin m) (Fin n) K) (z : Fin m → K) :
    combine n (rowsOf A) (List.ofFn z) = List.ofFn (z ᵥ* A) := by
  have zeros : List.replicate n (0 : K) = List.ofFn (0 : Fin n → K) := (List.ofFn_const n 0).symm
  unfold combine
  rw [zeros, Matrix.vecMul_eq_sum]
  refine (foldl_weighted A.row z 0).trans ?_
  rw [zero_add]
  rfl

/-- The products of the rows with each other. -/
theorem gram_rowsOf (A : Matrix (Fin m) (Fin n) K) (b : Fin m → K) :
    gram (rowsOf A) (List.ofFn b) = system (A * Aᵀ) b := by
  unfold gram rowsOf system
  refine List.ext_getElem (by simp) fun i hi hi' => ?_
  simp only [List.getElem_zipWith, List.getElem_ofFn, List.map_ofFn, Row.mk.injEq, and_true]
  congr 1
  funext k
  exact dot_ofFn _ _

variable [LinearOrder K] [IsStrictOrderedRing K] {A : Matrix (Fin m) (Fin n) K} {b : Fin m → K}
variable {s v : Fin n → K} {t : K} {xs : List K}

/-- **What a step is.** -/
theorem leastNorm_ok (pos : 0 < t)
    (solved : leastNorm t (rowsOf A) (List.ofFn b) (List.ofFn s) = .ok xs) :
    xs.length = n ∧ ∃ z : Fin m → K,
      (∀ j, toVec n xs j = (z ᵥ* (A * Matrix.diagonal s)) j * s j) ∧
      (A * Matrix.diagonal s) *ᵥ (z ᵥ* (A * Matrix.diagonal s)) = b := by
  unfold leastNorm at solved
  simp only [scaleColumns_rowsOf, gram_rowsOf, List.length_ofFn] at solved
  split at solved
  next z eliminated =>
    obtain ⟨length, only⟩ := solve_system_ok pos eliminated
    rw [← ofFn_toVec length, combine_rowsOf, zipWith_ofFn, Except.ok.injEq] at solved
    subst solved
    have product := (only (toVec m z)).mpr rfl
    rw [← Matrix.mulVec_mulVec, Matrix.mulVec_transpose] at product
    exact ⟨List.length_ofFn, toVec m z, fun j => by rw [toVec_ofFn], product⟩
  next => cases solved

/-- A step solves the system, for any scales. -/
theorem mulVec_leastNorm (pos : 0 < t)
    (solved : leastNorm t (rowsOf A) (List.ofFn b) (List.ofFn s) = .ok xs) :
    A *ᵥ toVec n xs = b := by
  obtain ⟨-, z, step, product⟩ := leastNorm_ok pos solved
  have scaled : toVec n xs = Matrix.diagonal s *ᵥ (z ᵥ* (A * Matrix.diagonal s)) := by
    funext j
    rw [step, Matrix.mulVec_diagonal, mul_comm]
  rw [scaled, Matrix.mulVec_mulVec, product]

/-- The same for rows as lists. -/
theorem map_dot_leastNorm {rows : List (List K)} {b scale : List K} (pos : 0 < t)
    (wide : ∀ row ∈ rows, row.length = n) (hb : b.length = rows.length) (hs : scale.length = n)
    (solved : leastNorm t rows b scale = .ok xs) :
    xs.length = n ∧ rows.map (dot · xs) = b := by
  rw [← rowsOf_toVec wide, ← ofFn_toVec hb, ← ofFn_toVec hs] at solved
  have length := (leastNorm_ok pos solved).1
  have product := mulVec_leastNorm pos solved
  refine ⟨length, ?_⟩
  rw [← ofFn_toVec hb, ← product]
  refine List.ext_getElem (by simp) fun i hi hi' => ?_
  rw [List.getElem_map, List.getElem_ofFn, dot_eq_dotProduct (wide _ (List.getElem_mem _)) length]
  rfl

omit [LinearOrder K] [IsStrictOrderedRing K] in
/-- A combination of rows, and a vector with the same products with all rows: the squares of the
combination and of the difference add up. -/
theorem dotProduct_self_of_rows {B : Matrix (Fin m) (Fin n) K} {z : Fin m → K}
    (same : B *ᵥ v = B *ᵥ (z ᵥ* B)) :
    v ⬝ᵥ v = (z ᵥ* B) ⬝ᵥ (z ᵥ* B) + (v - z ᵥ* B) ⬝ᵥ (v - z ᵥ* B) := by
  have apart : (z ᵥ* B) ⬝ᵥ (v - z ᵥ* B) = 0 := by
    rw [← Matrix.dotProduct_mulVec, Matrix.mulVec_sub, same, sub_self, dotProduct_zero]
  generalize z ᵥ* B = w at apart ⊢
  calc v ⬝ᵥ v = (w + (v - w)) ⬝ᵥ (w + (v - w)) := by rw [add_sub_cancel]
    _ = w ⬝ᵥ w + w ⬝ᵥ (v - w) + ((v - w) ⬝ᵥ w + (v - w) ⬝ᵥ (v - w)) := by
      rw [add_dotProduct, dotProduct_add, dotProduct_add]
    _ = w ⬝ᵥ w + (v - w) ⬝ᵥ (v - w) := by
      rw [dotProduct_comm (v - w) w, apart, add_zero, zero_add]

/-- The sum of squares that a step makes least: each component is counted in units of its scale. -/
def effort (s x : Fin n → K) : K := ∑ j, (x j / s j) ^ 2

/-- Each component in units of its scale. -/
def units (s x : Fin n → K) : Fin n → K := fun j => x j / s j

omit [LinearOrder K] [IsStrictOrderedRing K] in
/-- The effort is the square of the length in units. -/
theorem effort_eq_dotProduct (s x : Fin n → K) : effort s x = units s x ⬝ᵥ units s x :=
  Finset.sum_congr rfl fun j _ => pow_two (x j / s j)

omit [LinearOrder K] [IsStrictOrderedRing K] in
/-- The scaled columns meet the components in units of their scales. -/
theorem mulVec_units (nonzero : ∀ j, s j ≠ 0) (A : Matrix (Fin m) (Fin n) K) (x : Fin n → K) :
    (A * Matrix.diagonal s) *ᵥ units s x = A *ᵥ x := by
  have back : Matrix.diagonal s *ᵥ units s x = x := by
    funext j
    rw [Matrix.mulVec_diagonal, units, mul_div_cancel₀ _ (nonzero j)]
  rw [← Matrix.mulVec_mulVec, back]

omit [LinearOrder K] [IsStrictOrderedRing K] in
/-- With scales other than zero, units tell the components. -/
theorem units_inj (nonzero : ∀ j, s j ≠ 0) {x y : Fin n → K} (same : units s x = units s y) :
    x = y :=
  funext fun j => (div_left_inj' (nonzero j)).mp (congrFun same j)

/-- **The step is the solution of least weighted norm**, and the only one. -/
theorem least_of_leastNorm (nonzero : ∀ j, s j ≠ 0) (pos : 0 < t)
    (solved : leastNorm t (rowsOf A) (List.ofFn b) (List.ofFn s) = .ok xs) :
    xs.length = n ∧ A *ᵥ toVec n xs = b ∧ ∀ y : Fin n → K, A *ᵥ y = b →
      effort s (toVec n xs) ≤ effort s y ∧
      (effort s (toVec n xs) = effort s y → y = toVec n xs) := by
  obtain ⟨length, z, step, product⟩ := leastNorm_ok pos solved
  refine ⟨length, mulVec_leastNorm pos solved, fun y solves => ?_⟩
  -- in units of the scales, the step is a combination of the rows
  have combination : units s (toVec n xs) = z ᵥ* (A * Matrix.diagonal s) := by
    funext j
    rw [units, step, mul_div_cancel_right₀ _ (nonzero j)]
  have same : (A * Matrix.diagonal s) *ᵥ units s y =
      (A * Matrix.diagonal s) *ᵥ (z ᵥ* (A * Matrix.diagonal s)) := by
    rw [mulVec_units nonzero, solves, product]
  have squares := dotProduct_self_of_rows same
  rw [← combination, ← effort_eq_dotProduct, ← effort_eq_dotProduct] at squares
  rw [squares]
  refine ⟨le_add_of_nonneg_right (Finset.sum_nonneg fun j _ => mul_self_nonneg _), fun eq => ?_⟩
  have gone := dotProduct_self_eq_zero.mp (left_eq_add.mp eq)
  exact units_inj nonzero (sub_eq_zero.mp gone)

/-- One equation for two unknowns, of which the first is to move less. -/
theorem least_of_leastNorm_sharedSum :
    (∀ j, ![(1 : ℚ) / 2, 1] j ≠ 0) ∧ (0 : ℚ) < 1 / 10 ^ 20 ∧
    leastNorm (1 / 10 ^ 20) (rowsOf !![(1 : ℚ), 1]) (List.ofFn ![5]) (List.ofFn ![1 / 2, 1]) =
      .ok [1, 4] ∧
    !![(1 : ℚ), 1] *ᵥ toVec 2 [1, 4] = ![5] ∧ !![(1 : ℚ), 1] *ᵥ ![2, 3] = ![5] ∧
    effort ![(1 : ℚ) / 2, 1] (toVec 2 [1, 4]) ≤ effort ![1 / 2, 1] ![2, 3] := by
  have nonzero : ∀ j, ![(1 : ℚ) / 2, 1] j ≠ 0 := by decide +kernel
  have pos : (0 : ℚ) < 1 / 10 ^ 20 := by norm_num
  have solved : leastNorm (1 / 10 ^ 20) (rowsOf !![(1 : ℚ), 1]) (List.ofFn ![5])
      (List.ofFn ![1 / 2, 1]) = .ok [1, 4] := by
    decide +kernel
  have other : !![(1 : ℚ), 1] *ᵥ ![2, 3] = ![5] := by decide +kernel
  obtain ⟨-, solution, least⟩ := least_of_leastNorm nonzero pos solved
  exact ⟨nonzero, pos, solved, solution, other, (least ![2, 3] other).1⟩

end SketchSolver.Linear
