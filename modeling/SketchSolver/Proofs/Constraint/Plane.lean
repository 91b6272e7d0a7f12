import Mathlib

/-!
# The plane in coordinates

Residuals are made of coordinates, and relations are about points. What joins the two is the
signed area of the parallelogram that two vectors span, `Plane.cross`: it is zero for vectors
that are dependent (`dependent_iff`), it tells which points lie on a line (`mem_line_iff`),
and divided by the length of a segment it is the distance from the line of that segment
(`infDist_line_mul`).

A mirror image is told by two equations: the midpoint lies on the mirror, and the two points
lie across it (`reflection_eq_iff`).

The relations themselves are those of Euclidean geometry, as they are stated for any affine
space with an inner product: lines are affine subspaces, a mirror image is a reflection in
one, and the distance from a line is an infimum. Nothing is defined anew but the area. So what
is proved here says of formulas in coordinates that they are what a reader means by the words,
and the modules about constraints can use the formulas.

A segment whose ends coincide has no line. Where a statement is about a line it asks for two
different points; parallel and orthogonal directions are about vectors and ask for nothing.

The squares of area and inner product add up to the product of the squared lengths
(`cross_sq_add_inner_sq`). So of two vectors with given lengths one of the two numbers tells
the other up to its sign, and a formula with the area can be compared with a notion that is
defined by inner products.
-/

namespace SketchSolver

open EuclideanGeometry
open scoped RealInnerProductSpace

/-- The Euclidean plane. -/
abbrev Plane := EuclideanSpace ℝ (Fin 2)

namespace Plane

variable {u v a b c d p q : Plane}

/-- The signed area of the parallelogram that two vectors span. -/
def cross (u v : Plane) : ℝ := u 0 * v 1 - u 1 * v 0

/-! ## Vectors -/

theorem inner_eq (u v : Plane) : ⟪u, v⟫ = u 0 * v 0 + u 1 * v 1 := by
  rw [PiLp.inner_apply, Fin.sum_univ_two]
  simp only [RCLike.inner_apply, conj_trivial]
  ring

theorem norm_eq (u : Plane) : ‖u‖ = √(u 0 * u 0 + u 1 * u 1) := by
  rw [← inner_eq, norm_eq_sqrt_real_inner]

/-- Points with the same coordinates are equal. -/
theorem eq_of_coordinates (first : u 0 = v 0) (second : u 1 = v 1) : u = v := by
  refine PiLp.ext fun i => ?_
  fin_cases i
  · exact first
  · exact second

theorem cross_smul_left (t : ℝ) (u v : Plane) : cross (t • u) v = t * cross u v := by
  unfold cross
  rw [PiLp.smul_apply, PiLp.smul_apply, smul_eq_mul, smul_eq_mul]
  ring

theorem cross_add_left (u v w : Plane) : cross (u + v) w = cross u w + cross v w := by
  unfold cross
  rw [PiLp.add_apply, PiLp.add_apply]
  ring

theorem cross_comm (u v : Plane) : cross u v = -cross v u := by
  unfold cross
  ring

theorem cross_neg_left (u v : Plane) : cross (-u) v = -cross u v := by
  rw [← neg_one_smul ℝ, cross_smul_left, neg_one_mul]

theorem cross_neg_right (u v : Plane) : cross u (-v) = -cross u v := by
  rw [cross_comm, cross_neg_left, neg_neg, cross_comm]

theorem cross_self (u : Plane) : cross u u = 0 := by
  unfold cross
  ring

/-- The products of two vectors together say how long the vectors are. -/
theorem cross_sq_add_inner_sq (u v : Plane) :
    cross u v ^ 2 + ⟪u, v⟫ ^ 2 = (‖u‖ * ‖v‖) ^ 2 := by
  rw [mul_pow, ← real_inner_self_eq_norm_sq, ← real_inner_self_eq_norm_sq, inner_eq, inner_eq,
    inner_eq]
  unfold cross
  ring

/-- The multiples of a vector span no area with it, and no other vectors do. -/
theorem cross_eq_zero_iff (hv : v ≠ 0) : cross u v = 0 ↔ ∃ t : ℝ, t • v = u := by
  constructor
  · intro flat
    have positive : 0 < v 0 * v 0 + v 1 * v 1 := by
      rw [← inner_eq]
      exact real_inner_self_pos.mpr hv
    have area : u 0 * v 1 - u 1 * v 0 = 0 := flat
    -- the multiple is the one that the projection to `v` has
    refine ⟨(u 0 * v 0 + u 1 * v 1) / (v 0 * v 0 + v 1 * v 1), ?_⟩
    refine eq_of_coordinates ?_ ?_
    · rw [PiLp.smul_apply, smul_eq_mul, div_mul_eq_mul_div, div_eq_iff positive.ne']
      linear_combination -v 1 * area
    · rw [PiLp.smul_apply, smul_eq_mul, div_mul_eq_mul_div, div_eq_iff positive.ne']
      linear_combination v 0 * area
  · rintro ⟨t, rfl⟩
    rw [cross_smul_left, cross_self, mul_zero]

/-- **Two vectors are dependent iff they span no area.** -/
theorem dependent_iff : ¬LinearIndependent ℝ ![u, v] ↔ cross u v = 0 := by
  by_cases hv : v = 0
  · subst hv
    have flat : cross u 0 = 0 := by simp [cross]
    exact iff_of_true (fun independent => independent.ne_zero 1 rfl) flat
  · rw [cross_eq_zero_iff hv, LinearIndependent.pair_symm_iff, LinearIndependent.pair_iff' hv]
    push Not
    rfl

/-! ## Lines -/

theorem mem_direction_iff (distinct : a ≠ b) :
    u ∈ line[ℝ, a, b].direction ↔ cross u (a - b) = 0 := by
  rw [direction_affineSpan, mem_vectorSpan_pair, cross_eq_zero_iff (sub_ne_zero.mpr distinct)]
  rfl

theorem mem_orthogonal_iff : u ∈ line[ℝ, a, b].directionᗮ ↔ ⟪u, a - b⟫ = 0 := by
  rw [direction_affineSpan, vectorSpan_pair, Submodule.mem_orthogonal_singleton_iff_inner_left]
  rfl

/-- **A point lies on a line iff it spans no area with two points of it.** -/
theorem mem_line_iff (distinct : a ≠ b) : p ∈ line[ℝ, a, b] ↔ cross (a - p) (a - b) = 0 := by
  rw [← mem_direction_iff distinct]
  exact (AffineSubspace.vsub_left_mem_direction_iff_mem (left_mem_affineSpan_pair ℝ a b) p).symm

/-- **The area over a segment is its length times the distance from its line.** -/
theorem infDist_line_mul (distinct : a ≠ b) :
    Metric.infDist p line[ℝ, a, b] * ‖a - b‖ = |cross (a - p) (a - b)| := by
  obtain ⟨on, across⟩ := coe_orthogonalProjection_eq_iff_mem.mp
    (rfl : (orthogonalProjection line[ℝ, a, b] p : Plane) = orthogonalProjection line[ℝ, a, b] p)
  rw [← dist_orthogonalProjection_eq_infDist]
  generalize (orthogonalProjection line[ℝ, a, b] p : Plane) = foot at on across ⊢
  have level : cross (a - foot) (a - b) = 0 := (mem_line_iff distinct).mp on
  have right : ⟪p - foot, a - b⟫ = 0 := mem_orthogonal_iff.mp across
  have area : cross (a - p) (a - b) = -cross (p - foot) (a - b) := by
    have parts : a - foot = (a - p) + (p - foot) := (sub_add_sub_cancel a p foot).symm
    rw [parts, cross_add_left] at level
    exact eq_neg_of_add_eq_zero_left level
  have square := cross_sq_add_inner_sq (p - foot) (a - b)
  rw [right, zero_pow two_ne_zero, add_zero, sq_eq_sq_iff_abs_eq_abs] at square
  rw [area, abs_neg, square, abs_of_nonneg (mul_nonneg (norm_nonneg _) (norm_nonneg _)),
    dist_eq_norm]

/-- **A point is the mirror image of another one iff their midpoint lies on the mirror and they lie
across it.** -/
theorem reflection_eq_iff (distinct : a ≠ b) : reflection line[ℝ, a, b] p = q ↔
    ⟪q - p, b - a⟫ = 0 ∧ cross (a - p) (b - a) + cross (a - q) (b - a) = 0 := by
  have middle : reflection line[ℝ, a, b] p = q ↔
      (orthogonalProjection line[ℝ, a, b] p : Plane) = midpoint ℝ p q := by
    rw [reflection_apply', vsub_eq_sub, vadd_eq_add, midpoint_eq_smul_add, sub_add_eq_add_sub,
      sub_eq_iff_eq_add, ← two_smul ℝ, add_comm q p]
    constructor
    · intro twice
      rw [← twice, smul_smul, invOf_mul_self, one_smul]
    · intro half
      rw [half, smul_smul, mul_invOf_self, one_smul]
  have offset : p - midpoint ℝ p q = -(2⁻¹ : ℝ) • (q - p) := by
    rw [midpoint_eq_smul_add, invOf_eq_inv]
    module
  have level : a - midpoint ℝ p q = (2⁻¹ : ℝ) • ((a - p) + (a - q)) := by
    rw [midpoint_eq_smul_add, invOf_eq_inv]
    module
  rw [middle, coe_orthogonalProjection_eq_iff_mem, mem_line_iff distinct, mem_orthogonal_iff,
    vsub_eq_sub, offset, level, real_inner_smul_left, cross_smul_left, ← neg_sub b a,
    inner_neg_right, cross_neg_right, cross_add_left, and_comm]
  simp only [mul_eq_zero, neg_eq_zero, inv_eq_zero, two_ne_zero, false_or]

/-- Two segments lie on parallel lines iff their directions are dependent. -/
theorem parallel_iff (distinct : a ≠ b) (distinct' : c ≠ d) :
    line[ℝ, a, b].Parallel line[ℝ, c, d] ↔ cross (a - b) (c - d) = 0 := by
  rw [AffineSubspace.affineSpan_pair_parallel_iff_vectorSpan_eq, vectorSpan_pair, vectorSpan_pair,
    cross_eq_zero_iff (sub_ne_zero.mpr distinct'), eq_comm,
    Submodule.span_singleton_eq_span_singleton]
  constructor
  · rintro ⟨unit, eq⟩
    exact ⟨unit, eq⟩
  · rintro ⟨t, eq⟩
    have nonzero : t ≠ 0 := by
      rintro rfl
      rw [zero_smul] at eq
      exact distinct (sub_eq_zero.mp eq.symm)
    exact ⟨Units.mk0 t nonzero, eq⟩

/-- **The ends of two segments lie on one line iff the segments are parallel and an end of the
second one lies on the line of the first one.** -/
theorem collinear_iff (distinct : a ≠ b) :
    Collinear ℝ {a, b, c, d} ↔ cross (a - b) (c - d) = 0 ∧ c ∈ line[ℝ, a, b] := by
  have swap : cross (a - b) (c - d) = 0 ↔ c - d ∈ line[ℝ, a, b].direction := by
    rw [mem_direction_iff distinct, cross_comm, neg_eq_zero]
  rw [swap]
  constructor
  · intro common
    have on (x : Plane) (mem : x ∈ ({a, b, c, d} : Set Plane)) : x ∈ line[ℝ, a, b] :=
      common.mem_affineSpan_of_mem_of_ne (by simp) (by simp) mem distinct
    have hc := on c (by simp)
    exact ⟨AffineSubspace.vsub_mem_direction hc (on d (by simp)), hc⟩
  · rintro ⟨along, hc⟩
    have hd : d ∈ line[ℝ, a, b] := (AffineSubspace.vsub_left_mem_direction_iff_mem hc d).mp along
    have order : ({a, b, c, d} : Set Plane) = {c, d, a, b} := by
      ext x
      simp only [Set.mem_insert_iff, Set.mem_singleton_iff]
      tauto
    rw [order]
    exact collinear_insert_insert_of_mem_affineSpan_pair hc hd

end Plane

end SketchSolver
