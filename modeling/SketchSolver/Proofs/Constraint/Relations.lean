import SketchSolver.Proofs.Constraint.Demands
import SketchSolver.Proofs.Constraint.Plane
import SketchSolver.Proofs.Expr.RealValues

/-!
# What residuals mean in the plane

Over the real numbers the vectors, distances and products that residuals are made of evaluate
to those of the points. So a residual is zero where its relation holds
(`Kind.relations_of_residuals`): a mirror image, a point on a line or a circle, a tangent,
equal lengths, dependent or orthogonal directions.

The residual of `collinear` has the two directions alone, and no offset. It says that the
segments are parallel, and of segments on different parallel lines it says nothing else
(`Kind.collinear_reads_directions`).

A statement about a kind is made for shapes of the right sorts, with any parameters, and at any
values. `Kind.Holds` takes the residuals that the kind has for the parameters of the shapes
and asks that each of them is zero. That a constraint of a sketch has just these residuals is
`holds_of_create`: creating it has gathered the parameters of its entities in order.

Relations that are about a line need one, so the ends of the segment are different there. A
tangent is special in that its residual has a sign, the side of the line on which the centre
lies, and a radius is a number like any other and may be negative. So a tangent in the sense
of geometry is one of two equations, depending on the order of the ends.

Everything is over the reals, where a residual can be zero. A solve makes residuals of doubles
small, and how far points are from a relation then is not asked here.
-/

namespace SketchSolver

open EuclideanGeometry
open scoped RealInnerProductSpace

variable (env : Handle → ℝ)

/-! ## Points and vectors -/

/-- A difference is zero where both sides are equal. -/
theorem Expr.eval_minus_eq_zero {env : Handle → ℝ} {e f : Expr ℝ} :
    (e.minus f).eval env = 0 ↔ e.eval env = f.eval env := sub_eq_zero

/-- The vector that the components of a vector evaluate to. -/
noncomputable def ExprVector.eval (v : ExprVector ℝ) : Plane := !₂[v.x.eval env, v.y.eval env]

/-- Where a point is. -/
noncomputable def Point.place (p : Point) : Plane := !₂[env p.x, env p.y]

namespace ExprVector

variable (v w : ExprVector ℝ)

theorem eval_minus : (v.minus w).eval env = v.eval env - w.eval env :=
  Plane.eq_of_coordinates rfl rfl

theorem eval_dot : (v.dot w).eval env = ⟪v.eval env, w.eval env⟫ :=
  (Plane.inner_eq (v.eval env) (w.eval env)).symm

theorem eval_cross : (v.cross w).eval env = (v.eval env).cross (w.eval env) := rfl

theorem eval_magnitude : v.magnitude.eval env = ‖v.eval env‖ :=
  (Plane.norm_eq (v.eval env)).symm

end ExprVector

namespace Point

variable (p a b : Point)

/-- The difference of two points is the vector between them. -/
theorem eval_difference :
    (a.difference b : ExprVector ℝ).eval env = a.place env - b.place env :=
  ExprVector.eval_minus env a.position b.position

/-- The distance of two points is that of their places. -/
theorem eval_distance : (a.distance b).eval env = dist (a.place env) (b.place env) := by
  unfold distance
  rw [ExprVector.eval_magnitude, eval_difference, dist_eq_norm]

/-- The distance from a line, with its sign, is an area divided by a length. -/
theorem eval_lineDistance : (p.lineDistance a b).eval env =
    (a.place env - p.place env).cross (a.place env - b.place env) /
      ‖a.place env - b.place env‖ := by
  have length := ExprVector.eval_magnitude env (a.difference b)
  rw [eval_difference] at length
  show _ / (a.difference b : ExprVector ℝ).magnitude.eval env = _
  rw [length]
  congr 1
  show (env a.y - env b.y) * (env a.x - env p.x) - (env a.x - env b.x) * (env a.y - env p.y) =
    (env a.x - env p.x) * (env a.y - env b.y) - (env a.y - env p.y) * (env a.x - env b.x)
  ring

/-- The size of the signed distance is the distance. -/
theorem abs_eval_lineDistance (distinct : a.place env ≠ b.place env) :
    |(p.lineDistance a b).eval env| =
      Metric.infDist (p.place env) line[ℝ, a.place env, b.place env] := by
  have length : ‖a.place env - b.place env‖ ≠ 0 := norm_ne_zero_iff.mpr (sub_ne_zero.mpr distinct)
  rw [eval_lineDistance, abs_div, abs_norm, div_eq_iff length]
  exact (Plane.infDist_line_mul distinct).symm

/-- Exchanging the ends of the segment turns the sign of the distance. -/
theorem eval_lineDistance_comm (p a b : Point) :
    (p.lineDistance b a).eval env = -(p.lineDistance a b).eval env := by
  rw [eval_lineDistance, eval_lineDistance, norm_sub_rev (b.place env), ← neg_div]
  congr 1
  unfold Plane.cross
  simp only [PiLp.sub_apply]
  ring

end Point

/-! ## Residuals -/

namespace Kind

/-- All expressions that a kind demands of shapes are zero. -/
def Holds (kind : Kind) (shapes : List Shape) : Prop :=
  ∃ es : List (Expr ℝ), kind.residuals? (shapes.flatMap Shape.params) = some es ∧
    ∀ e ∈ es, e.eval env = 0

variable {env} {kind : Kind} {shapes : List Shape}

/-- A kind holds where all its residuals are zero. -/
theorem holds_iff {es : List (Expr ℝ)}
    (demands : kind.residuals? (shapes.flatMap Shape.params) = some es) :
    kind.Holds env shapes ↔ ∀ e ∈ es, e.eval env = 0 := by
  constructor
  · rintro ⟨es', demands', zero⟩
    cases demands.symm.trans demands'
    exact zero
  · exact fun zero => ⟨es, demands, zero⟩

/-- A kind with one residual holds where that is zero. -/
theorem holds_single {e : Expr ℝ}
    (demands : kind.residuals? (shapes.flatMap Shape.params) = some [e]) :
    kind.Holds env shapes ↔ e.eval env = 0 := by
  rw [holds_iff demands, List.forall_mem_singleton]

/-- **The equations of a constraint are zero exactly where its kind holds of the shapes that its
entities have.** -/
theorem holds_of_create {sk sk' : Sketch ℝ} {ids : List EntityId} {c : Constraint}
    (created : Constraint.create sk kind ids = .ok (c, sk')) :
    ∃ entities, ids.mapM sk.entity = .ok entities ∧
      ∃ l, EquationList.addConstraint IdList.empty c = .ok l ∧
        ((∀ e ∈ l.toList, e.expr.eval env = 0) ↔ kind.Holds env (entities.map (·.shape))) := by
  obtain ⟨entities, found, fits, shape, -⟩ := Constraint.create_ok created
  obtain ⟨es, demands⟩ := exists_residuals (α := ℝ) fits
  refine ⟨entities, found, _, EquationList.addConstraint_ofExprs [] fits, ?_⟩
  have same : c.demands = es := by
    unfold Constraint.demands
    rw [demands]
    rfl
  have params : c.params = (entities.map (·.shape)).flatMap Shape.params := by
    rw [shape, List.flatMap_map]
  have kind' : c.kind = kind := by rw [shape]
  rw [kind', params] at demands
  rw [List.nil_append, same, holds_iff demands]
  conv => rhs; rw [← EquationList.exprs_ofExprs es, List.forall_mem_map]

/-! ## Relations -/

variable {p a b c d : Point} {r : Handle}

theorem holds_parallel_iff : parallel.Holds env [.segment a b, .segment c d] ↔
    (a.place env - b.place env).cross (c.place env - d.place env) = 0 := by
  rw [holds_single rfl, ExprVector.eval_cross, Point.eval_difference, Point.eval_difference]

theorem holds_collinear_iff : collinear.Holds env [.segment a b, .segment c d] ↔
    (a.place env - b.place env).cross (c.place env - d.place env) = 0 := by
  rw [holds_single rfl, ExprVector.eval_cross, Point.eval_difference, Point.eval_difference]

/-- Perpendicular segments have no inner product. -/
theorem holds_perpendicular_iff : perpendicular.Holds env [.segment a b, .segment c d] ↔
    ⟪a.place env - b.place env, c.place env - d.place env⟫ = 0 := by
  rw [holds_single rfl, ExprVector.eval_dot, Point.eval_difference, Point.eval_difference]

/-- Segments of equal length have ends at equal distances. -/
theorem holds_equalLength_iff : equalLength.Holds env [.segment a b, .segment c d] ↔
    dist (a.place env) (b.place env) = dist (c.place env) (d.place env) := by
  rw [holds_single rfl, Expr.eval_minus_eq_zero, Point.eval_distance, Point.eval_distance]

/-- A point on a circle is as far from the centre as the radius is large. -/
theorem holds_pointOnCircle_iff : pointOnCircle.Holds env [.point p, .circle c r] ↔
    dist (p.place env) (c.place env) = env r := by
  rw [holds_single rfl, Expr.eval_minus_eq_zero, Point.eval_distance]
  rfl

/-- A point is on the line through two different points. -/
theorem holds_pointOnLine_iff (distinct : a.place env ≠ b.place env) :
    pointOnLine.Holds env [.point p, .segment a b] ↔
      p.place env ∈ line[ℝ, a.place env, b.place env] := by
  have length : ‖a.place env - b.place env‖ ≠ 0 := norm_ne_zero_iff.mpr (sub_ne_zero.mpr distinct)
  rw [holds_single rfl, Point.eval_lineDistance, div_eq_zero_iff, or_iff_left length,
    Plane.mem_line_iff distinct]

/-- The distance with its sign is the radius. -/
theorem holds_tangent_iff : tangent.Holds env [.segment a b, .circle c r] ↔
    (c.lineDistance a b).eval env = env r := by
  rw [holds_single rfl, Expr.eval_minus_eq_zero]
  rfl

/-- The radius of a tangent circle is the signed distance of its centre, so the order of the ends
decides the sign. -/
theorem holds_tangent_or_iff (distinct : a.place env ≠ b.place env) :
    tangent.Holds env [.segment a b, .circle c r] ∨ tangent.Holds env [.segment b a, .circle c r] ↔
      Metric.infDist (c.place env) line[ℝ, a.place env, b.place env] = |env r| := by
  rw [holds_tangent_iff, holds_tangent_iff, Point.eval_lineDistance_comm env c a b,
    ← Point.abs_eval_lineDistance env c a b distinct, abs_eq_abs, neg_eq_iff_eq_neg]

/-- The second point is the reflection of the first one. -/
theorem holds_symmetric_iff (distinct : c.place env ≠ d.place env) :
    symmetric.Holds env [.point a, .point b, .segment c d] ↔
      reflection line[ℝ, c.place env, d.place env] (a.place env) = b.place env := by
  have demands : symmetric.Holds env [.point a, .point b, .segment c d] ↔
      (acrossAxis a b c d).eval env = 0 ∧ (oppositeSides a b c d).eval env = 0 := by
    rw [holds_iff rfl, List.forall_mem_cons, List.forall_mem_singleton]
  have across : (acrossAxis a b c d).eval env =
      ⟪b.place env - a.place env, d.place env - c.place env⟫ := by
    unfold acrossAxis
    rw [ExprVector.eval_dot, Point.eval_difference, Point.eval_difference]
  have opposite : (oppositeSides a b c d).eval env =
      (c.place env - a.place env).cross (d.place env - c.place env) +
        (c.place env - b.place env).cross (d.place env - c.place env) := by
    rw [← Point.eval_difference, ← Point.eval_difference, ← Point.eval_difference,
      ← ExprVector.eval_cross, ← ExprVector.eval_cross]
    rfl
  rw [demands, across, opposite, Plane.reflection_eq_iff distinct]

/-- **Residuals mean the geometric relation.** At all coordinates and radii, what a kind demands of
shapes is zero exactly where the relation holds: the second point is the mirror image of the first
one, the point lies on the line or on the circle, the segments have equal lengths, dependent or
orthogonal directions. Of a tangent one of the two orders of the ends of the segment gives zero
exactly where the centre is as far from the line as the radius is large. -/
theorem relations_of_residuals (env : Handle → ℝ) :
    (∀ a b c d : Point, c.place env ≠ d.place env →
      (symmetric.Holds env [.point a, .point b, .segment c d] ↔
        reflection line[ℝ, c.place env, d.place env] (a.place env) = b.place env)) ∧
    (∀ p a b : Point, a.place env ≠ b.place env →
      (pointOnLine.Holds env [.point p, .segment a b] ↔
        p.place env ∈ line[ℝ, a.place env, b.place env])) ∧
    (∀ (a b c : Point) (r : Handle), a.place env ≠ b.place env →
      (tangent.Holds env [.segment a b, .circle c r] ∨
          tangent.Holds env [.segment b a, .circle c r] ↔
        Metric.infDist (c.place env) line[ℝ, a.place env, b.place env] = |env r|)) ∧
    (∀ (p c : Point) (r : Handle),
      (pointOnCircle.Holds env [.point p, .circle c r] ↔
        dist (p.place env) (c.place env) = env r)) ∧
    (∀ a b c d : Point,
      (equalLength.Holds env [.segment a b, .segment c d] ↔
        dist (a.place env) (b.place env) = dist (c.place env) (d.place env)) ∧
      (parallel.Holds env [.segment a b, .segment c d] ↔
        ¬LinearIndependent ℝ ![b.place env - a.place env, d.place env - c.place env]) ∧
      (perpendicular.Holds env [.segment a b, .segment c d] ↔
        ⟪b.place env - a.place env, d.place env - c.place env⟫ = 0)) := by
  refine ⟨fun a b c d distinct => holds_symmetric_iff distinct,
    fun p a b distinct => holds_pointOnLine_iff distinct,
    fun a b c r distinct => holds_tangent_or_iff distinct,
    fun p c r => holds_pointOnCircle_iff, fun a b c d => ⟨holds_equalLength_iff, ?_, ?_⟩⟩
  · rw [holds_parallel_iff, Plane.dependent_iff, ← neg_sub (a.place env), ← neg_sub (c.place env),
      Plane.cross_neg_left, Plane.cross_neg_right, neg_neg]
  · rw [holds_perpendicular_iff, ← neg_sub (a.place env), ← neg_sub (c.place env), inner_neg_neg]

/-- Two points on both sides of a mirror, a third one on it, and a circle of negative radius that
touches it. -/
theorem relations_of_residuals_aroundMirror :
    let env : Handle → ℝ := fun h => [-2, 1, 2, 1, 0, -1, 0, 5, 0, 3, -2].getD h.index 0
    let a : Point := ⟨⟨0⟩, ⟨1⟩⟩
    let b : Point := ⟨⟨2⟩, ⟨3⟩⟩
    let c : Point := ⟨⟨4⟩, ⟨5⟩⟩
    let d : Point := ⟨⟨6⟩, ⟨7⟩⟩
    let p : Point := ⟨⟨8⟩, ⟨9⟩⟩
    c.place env ≠ d.place env ∧
      reflection line[ℝ, c.place env, d.place env] (a.place env) = b.place env ∧
      p.place env ∈ line[ℝ, c.place env, d.place env] ∧
      Metric.infDist (a.place env) line[ℝ, c.place env, d.place env] = |env ⟨10⟩| := by
  intro env a b c d p
  have distinct : c.place env ≠ d.place env := by
    intro same
    have height : (-1 : ℝ) = 5 := congrFun (congrArg WithLp.ofLp same) 1
    norm_num at height
  have mirrored : symmetric.Holds env [.point a, .point b, .segment c d] := by
    refine (holds_iff rfl).mpr (List.forall_mem_cons.mpr ⟨?_, List.forall_mem_singleton.mpr ?_⟩)
    · show ((2 : ℝ) - -2) * (0 - 0) + (1 - 1) * (5 - -1) = 0
      norm_num
    · show ((0 : ℝ) - -2) * (5 - -1) - (-1 - 1) * (0 - 0) +
        ((0 - 2) * (5 - -1) - (-1 - 1) * (0 - 0)) = 0
      norm_num
  have on : pointOnLine.Holds env [.point p, .segment c d] := by
    refine (holds_single rfl).mpr ?_
    show ((-1 - 5) * (0 - 0) - (0 - 0) * (-1 - 3)) /
      √((0 - 0) * (0 - 0) + (-1 - 5) * (-1 - 5) : ℝ) = 0
    norm_num
  have touching : tangent.Holds env [.segment c d, .circle a ⟨10⟩] := by
    refine (holds_single rfl).mpr ?_
    -- the radius is negative, and so is the distance with its sign
    have length : √((0 - 0) * (0 - 0) + (-1 - 5) * (-1 - 5) : ℝ) = 6 := by
      rw [Real.sqrt_eq_iff_mul_self_eq (by norm_num) (by norm_num)]
      norm_num
    show ((-1 - 5) * (0 - -2) - (0 - 0) * (-1 - 1)) /
      √((0 - 0) * (0 - 0) + (-1 - 5) * (-1 - 5) : ℝ) - -2 = 0
    rw [length]
    norm_num
  obtain ⟨mirror, line, touch, -⟩ := relations_of_residuals env
  exact ⟨distinct, (mirror a b c d distinct).mp mirrored, (line p c d distinct).mp on,
    (touch c d a ⟨10⟩ distinct).mp (Or.inl touching)⟩

/-! ## Segments on one line -/

/-- **What `collinear` demands is that two segments are parallel.** Their four ends lie on one line
iff besides an end of the second segment lies on the line of the first one. -/
theorem collinear_reads_directions {env : Handle → ℝ} {a b c d : Point}
    (distinct : a.place env ≠ b.place env) (distinct' : c.place env ≠ d.place env) :
    (collinear.Holds env [.segment a b, .segment c d] ↔
      line[ℝ, a.place env, b.place env].Parallel line[ℝ, c.place env, d.place env]) ∧
    (Collinear ℝ {a.place env, b.place env, c.place env, d.place env} ↔
      collinear.Holds env [.segment a b, .segment c d] ∧
        c.place env ∈ line[ℝ, a.place env, b.place env]) := by
  rw [holds_collinear_iff]
  exact ⟨(Plane.parallel_iff distinct distinct').symm, Plane.collinear_iff distinct⟩

/-- The values of two segments of equal length, one above the other. -/
def stacked : Handle → ℝ := fun h => [0, 0, 1, 0, 0, 1, 1, 1].getD h.index 0

theorem distinct_stacked :
    (⟨⟨0⟩, ⟨1⟩⟩ : Point).place stacked ≠ (⟨⟨2⟩, ⟨3⟩⟩ : Point).place stacked ∧
      (⟨⟨4⟩, ⟨5⟩⟩ : Point).place stacked ≠ (⟨⟨6⟩, ⟨7⟩⟩ : Point).place stacked := by
  constructor
  all_goals
    intro same
    have first : (0 : ℝ) = 1 := congrFun (congrArg WithLp.ofLp same) 0
    norm_num at first

/-- The residual of two segments one above the other is zero. -/
theorem holds_stacked :
    collinear.Holds stacked [.segment ⟨⟨0⟩, ⟨1⟩⟩ ⟨⟨2⟩, ⟨3⟩⟩, .segment ⟨⟨4⟩, ⟨5⟩⟩ ⟨⟨6⟩, ⟨7⟩⟩] := by
  refine (holds_single rfl).mpr ?_
  show ((0 : ℝ) - 1) * (1 - 1) - (0 - 0) * (0 - 1) = 0
  norm_num

/-- The residual of two segments one above the other is zero, and their lines are parallel. -/
theorem collinear_reads_directions_stacked :
    (⟨⟨0⟩, ⟨1⟩⟩ : Point).place stacked ≠ (⟨⟨2⟩, ⟨3⟩⟩ : Point).place stacked ∧
    (⟨⟨4⟩, ⟨5⟩⟩ : Point).place stacked ≠ (⟨⟨6⟩, ⟨7⟩⟩ : Point).place stacked ∧
    line[ℝ, (⟨⟨0⟩, ⟨1⟩⟩ : Point).place stacked, (⟨⟨2⟩, ⟨3⟩⟩ : Point).place stacked].Parallel
      line[ℝ, (⟨⟨4⟩, ⟨5⟩⟩ : Point).place stacked, (⟨⟨6⟩, ⟨7⟩⟩ : Point).place stacked] :=
  ⟨distinct_stacked.1, distinct_stacked.2,
    (collinear_reads_directions distinct_stacked.1 distinct_stacked.2).1.mp holds_stacked⟩

/-- **The residual is zero of segments that lie on no common line.** -/
theorem not_collinear_stacked : ¬∀ (env : Handle → ℝ) (a b c d : Point),
    a.place env ≠ b.place env → c.place env ≠ d.place env →
    (collinear.Holds env [.segment a b, .segment c d] ↔
      Collinear ℝ {a.place env, b.place env, c.place env, d.place env}) := by
  intro claimed
  have common := (claimed stacked _ _ _ _ distinct_stacked.1 distinct_stacked.2).mp holds_stacked
  have on := ((Plane.collinear_iff distinct_stacked.1).mp common).2
  have flat : ((0 : ℝ) - 0) * (0 - 0) - (0 - 1) * (0 - 1) = 0 :=
    (Plane.mem_line_iff distinct_stacked.1).mp on
  norm_num at flat

end Kind

end SketchSolver
