import SketchSolver.Newton.Jacobian
import SketchSolver.Proofs.Expr.FrozenValue

/-!
# What a Jacobian reads

A written Jacobian has the parameters with its tag as columns and the equations with its tag
as rows (`write_ok`). Each row is the frozen expression of its equation, and differentiating
adds no parameter (`mem_params_derivative`), so the values that a Jacobian reads are those of
listed parameters (`write_reads`).

A Jacobian is written once and read at many values. Freezing takes place when it is written:
the constants in its rows are the values of settled parameters at that time, and the stand-ins
are those of that time. Whether it is still right later depends on what has changed in
between, and for this one has to know what it reads. `Reads j hs` gives a bound on that, and
two stores with the same values under these handles have the same residuals and the same
matrix (`residuals_congr`, `matrix_congr`).

Which handles are taken for the bound depends on the purpose. That all of them are listed
suffices in order to compare two solves. That all of them are columns, which is what makes a
Newton step mean anything, holds for the main system only and needs to know how it came about.

Writing reads ids, tags, representatives and what is settled, and values only of what is
settled. Stores that agree on the listed parameters therefore have the same Jacobian
(`write_congr`).
-/

namespace SketchSolver

variable {α : Type}

/-- A derivative mentions no parameter that the expression does not. -/
theorem Expr.mem_params_derivative [Zero α] [One α] [Add α] [Div α] {p q : Handle} {e : Expr α}
    (mem : q ∈ (e.derivative p).params) : q ∈ e.params := by
  induction e with
  | param r => simp [derivative, params] at mem
  | const v => simp [derivative, params] at mem
  | unary op a ih =>
    cases op <;> simp only [derivative, params, negate, sqrt, sin, cos, times, div,
      List.nil_append, List.mem_append] at mem
    case negate => exact ih mem
    all_goals exact mem.elim id ih
  | binary op a b iha ihb =>
    show q ∈ a.params ++ b.params
    rw [List.mem_append]
    cases op <;> simp only [derivative, params, plus, minus, times, div, square,
      List.mem_append] at mem
    case plus => exact mem.imp iha ihb
    case minus => exact mem.imp iha ihb
    case times =>
      rcases mem with (ha | hb) | (hb | ha)
      · exact Or.inl ha
      · exact Or.inr (ihb hb)
      · exact Or.inr hb
      · exact Or.inl (iha ha)
    case div =>
      rcases mem with ((ha | hb) | (ha | hb)) | hb
      · exact Or.inl (iha ha)
      · exact Or.inr hb
      · exact Or.inl ha
      · exact Or.inr (ihb hb)
      · exact Or.inr hb

namespace Jacobian

/-- The columns and all that the rows mention are among some parameters. -/
structure Reads (j : Jacobian α) (hs : List Handle) : Prop where
  columns : ∀ p ∈ j.columns, p ∈ hs
  residuals : ∀ r ∈ j.rows, ∀ p ∈ r.residual.params, p ∈ hs
  entries : ∀ r ∈ j.rows, ∀ e ∈ r.entries, ∀ p ∈ e.params, p ∈ hs

section Write

variable [Zero α] [One α] [Add α] [Div α] {s t : Store α} {params : ParamList}
variable {equations : EquationList α} {tag limit : Nat} {j : Jacobian α}

/-- Columns are the parameters, and rows the equations, with the tag. -/
theorem write_ok (h : write tag s params equations limit = .ok j) :
    j.columns = (params.toList.filter fun p => s.tag p == tag) ∧
      j.rows = (equations.toList.filter fun e => e.tag == tag).map (row s params j.columns) := by
  unfold write at h
  simp only at h
  split at h
  next => simp at h
  next =>
    split at h
    next => simp at h
    next =>
      cases h
      exact ⟨rfl, rfl⟩

/-- The columns are the listed parameters with the tag. -/
theorem mem_columns (h : write tag s params equations limit = .ok j) {p : Handle} :
    p ∈ j.columns ↔ p ∈ params.toList ∧ s.tag p = tag := by
  rw [(write_ok h).1, List.mem_filter, beq_iff_eq]

/-- Every equation with the tag has a row. -/
theorem exists_row (h : write tag s params equations limit = .ok j) {e : Equation α}
    (mem : e ∈ equations.toList) (tagged : e.tag = tag) :
    ∃ r ∈ j.rows, r.residual = e.expr.frozen s params := by
  refine ⟨row s params j.columns e, ?_, rfl⟩
  rw [(write_ok h).2]
  exact List.mem_map_of_mem (List.mem_filter.mpr ⟨mem, beq_iff_eq.mpr tagged⟩)

/-- Entries mention what the residual mentions. -/
theorem mem_params_entry {f : Expr α} {p q : Handle} (mem : q ∈ (entry f p).params) :
    q ∈ f.params := by
  unfold entry at mem
  split at mem
  next => exact Expr.mem_params_derivative mem
  next => simp [Expr.params] at mem

/-- What the frozen copies of its equations read is all that a Jacobian reads but for columns. -/
theorem reads_of_frozen {hs : List Handle} (h : write tag s params equations limit = .ok j)
    (columns : ∀ p ∈ j.columns, p ∈ hs)
    (residuals : ∀ e ∈ equations.toList, e.tag = tag →
      ∀ q ∈ (e.expr.frozen s params).params, q ∈ hs) : j.Reads hs := by
  have rows : ∀ r ∈ j.rows, ∃ e ∈ equations.toList, e.tag = tag ∧ r = row s params j.columns e := by
    intro r hr
    rw [(write_ok h).2] at hr
    obtain ⟨e, he, rfl⟩ := List.mem_map.mp hr
    obtain ⟨mem, tagged⟩ := List.mem_filter.mp he
    exact ⟨e, mem, eq_of_beq tagged, rfl⟩
  refine ⟨columns, fun r hr => ?_, fun r hr x hx p hp => ?_⟩
  · obtain ⟨e, he, tagged, rfl⟩ := rows r hr
    exact residuals e he tagged
  · obtain ⟨e, he, tagged, rfl⟩ := rows r hr
    obtain ⟨q, _, rfl⟩ := List.mem_map.mp hx
    exact residuals e he tagged p (mem_params_entry hp)

/-- A Jacobian of equations in listed parameters reads listed parameters. -/
theorem write_reads (h : write tag s params equations limit = .ok j)
    (sorted : IdList.Sorted s.id params)
    (listed : ∀ e ∈ equations.toList, ∀ p ∈ e.expr.params, p ∈ params.toList) :
    j.Reads params.toList := by
  refine reads_of_frozen h (fun p hp => ((mem_columns h).mp hp).1) fun e he _ q hq => ?_
  obtain ⟨p, hp, mem⟩ := Expr.mem_params_frozen.mp hq
  have stand := Expr.stand?_of_mem sorted (listed e he p hp)
  rw [(Expr.mem_of_mem_frozenLeaf stand mem).1]
  exact Expr.stand?_mem stand

/-- Stores that agree on the listed parameters have the same Jacobian. -/
theorem write_congr (agree : Store.Agree params.toList s t)
    (listed : ∀ e ∈ equations.toList, ∀ p ∈ e.expr.params, p ∈ params.toList) :
    write tag t params equations limit = write tag s params equations limit := by
  have columns : (params.toList.filter fun p => t.tag p == tag) =
      params.toList.filter fun p => s.tag p == tag :=
    List.filter_congr fun p hp => by rw [agree.tag hp]
  have rows : ∀ columns, (equations.toList.filter fun e => e.tag == tag).map
        (row t params columns) =
      (equations.toList.filter fun e => e.tag == tag).map (row s params columns) := by
    intro columns
    refine List.map_congr_left fun e he => ?_
    unfold row
    rw [Expr.frozen_congr agree (listed e (List.mem_filter.mp he).1)]
  unfold write
  simp only [columns, rows]

end Write

section Read

variable [Add α] [Sub α] [Mul α] [Div α] [Neg α] [Elementary α] {j : Jacobian α}
variable {hs : List Handle} {env env' : Handle → α}

theorem residuals_congr (reads : j.Reads hs) (agree : ∀ p ∈ hs, env p = env' p) :
    j.residuals env = j.residuals env' :=
  List.map_congr_left fun r hr =>
    Expr.eval_congr r.residual fun p hp => agree p (reads.residuals r hr p hp)

theorem matrix_congr (reads : j.Reads hs) (agree : ∀ p ∈ hs, env p = env' p) :
    j.matrix env = j.matrix env' :=
  List.map_congr_left fun r hr => List.map_congr_left fun e he =>
    Expr.eval_congr e fun p hp => agree p (reads.entries r hr e he p hp)

theorem length_matrix (j : Jacobian α) (env : Handle → α) :
    (j.matrix env).length = j.rows.length := List.length_map _

/-- Every row of a written Jacobian has an entry for each column. -/
theorem width_matrix [Zero α] [One α] {tag limit : Nat} {s : Store α} {params : ParamList}
    {equations : EquationList α} (written : write tag s params equations limit = .ok j)
    (env : Handle → α) : ∀ row ∈ j.matrix env, row.length = j.columns.length := by
  intro row hrow
  obtain ⟨r, hr, rfl⟩ := List.mem_map.mp hrow
  rw [(write_ok written).2] at hr
  obtain ⟨e, _, rfl⟩ := List.mem_map.mp hr
  rw [List.length_map]
  exact List.length_map _

end Read

end Jacobian

end SketchSolver
