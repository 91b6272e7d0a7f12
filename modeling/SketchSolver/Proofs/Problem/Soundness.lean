import SketchSolver.Proofs.Problem.AloneStage

/-!
# What a successful solve guarantees

A solve that succeeds leaves values at which every equation that was loaded holds
(`satisfied_of_solve`): an equation of two parameters exactly, any other one within the
tolerance. The residual is that of the equation itself, although the solver has only ever
looked at frozen copies.

An equation gets there in one of three ways. It is the difference of two parameters: then it
was used up by merging, both have the same stand-in, and writing back gives them one value.
It was solved alone: then its residual was below the tolerance when its group was done, and
`Stage` has kept it there while other groups moved other parameters. Or it is a row of the
main system: then Newton's method stopped with its residual below the tolerance.

The last phase carries this over. After the main system was solved every equation holds at
the values of the stand-ins (`holdsAt_of_solveTogether`), and writing back gives every
parameter the value of its stand-in (`value_writeBack`). The frozen copy of an equation at
the values of the stand-ins is then the equation itself at the values that are left.

Writing back goes over the list once and reads representatives while it writes eliminated
parameters. No representative is eliminated itself (`Represented`), so none of the values
that are read was written in the same pass, and the order of the list does not matter.

The bound on the number of equations comes from `Stage`, that is from the tags. A satisfied
equation means less over doubles than over reals, since a residual is computed with rounding;
it is the residual that the program computes.
-/

namespace SketchSolver

open SketchSolver.Expr (standIn)

variable {α : Type} [Zero α]

/-! ## Writing back -/

section WriteBack

variable {params : ParamList} {s : Store α} {h : Handle}

/-- Writing back one parameter changes its value and whether it is settled. -/
theorem get_writeBackOne (sorted : IdList.Sorted s.id params) (represented : Represented params s)
    (mem : h ∈ params.toList) (k : Handle) :
    ∃ known, (Problem.writeBackOne params s h).get k =
      { s.get k with
        value := if h = k then s.value (standIn s params h) else s.value k, known } := by
  unfold Problem.writeBackOne
  by_cases gone : (s.get h).isSubstituted = true
  · obtain ⟨r, memr, idr, _⟩ := represented h mem (Param.isSubstituted_iff.mp gone)
    rw [if_pos gone, (ParamList.byId?_eq_some_iff sorted).mpr ⟨memr, idr⟩,
      Expr.standIn_gone sorted mem gone memr idr]
    simp only
    rw [Store.get_setKnown]
    unfold Store.setValue
    rw [Store.get_modify, Store.get_modify, if_pos rfl]
    split
    next eq =>
      subst eq
      exact ⟨true, rfl⟩
    next => exact ⟨_, rfl⟩
  · rw [if_neg gone, Expr.standIn_kept sorted mem ((Bool.not_eq_true _).mp gone)]
    refine ⟨(s.get k).known, ?_⟩
    split
    next eq =>
      subst eq
      rfl
    next => rfl

/-- Writing back some parameters gives each of them the value of its stand-in. -/
theorem value_foldl_writeBackOne (k : Handle) : ∀ {ps : List Handle} {s : Store α},
    IdList.Sorted s.id params → Represented params s → (∀ p ∈ ps, p ∈ params.toList) →
    (ps.foldl (Problem.writeBackOne params) s).value k =
      if k ∈ ps then s.value (standIn s params k) else s.value k
  | [], s, _, _, _ => rfl
  | p :: ps, s, sorted, represented, sub => by
    have memp := sub p List.mem_cons_self
    have get := get_writeBackOne sorted represented memp
    have id : ∀ k, (Problem.writeBackOne params s p).id k = s.id k :=
      (Problem.writeBackOne_within params s memp).id
    have tag : ∀ k, (Problem.writeBackOne params s p).tag k = s.tag k := fun k => by
      obtain ⟨known, eq⟩ := get k
      unfold Store.tag
      rw [eq]
    have rep : ∀ k, ((Problem.writeBackOne params s p).get k).representative =
        (s.get k).representative := fun k => by
      obtain ⟨known, eq⟩ := get k
      rw [eq]
    have value : ∀ k, (Problem.writeBackOne params s p).value k =
        if p = k then s.value (standIn s params p) else s.value k := fun k => by
      obtain ⟨known, eq⟩ := get k
      unfold Store.value
      rw [eq]
      rfl
    have stand : ∀ k, standIn (Problem.writeBackOne params s p) params k =
        standIn s params k := by
      refine Expr.standIn_of_marks id fun k _ => ⟨?_, rep k⟩
      exact congrArg (· == substitutedTag) (tag k)
    have represented' : Represented params (Problem.writeBackOne params s p) := by
      intro h mem gone
      rw [tag] at gone
      obtain ⟨r, memr, idr, kept⟩ := represented h mem gone
      exact ⟨r, memr, by rw [id, rep]; exact idr, by rw [tag]; exact kept⟩
    rw [List.foldl_cons, value_foldl_writeBackOne k (sorted.congr fun x _ => id x) represented'
      fun q hq => sub q (List.mem_cons_of_mem p hq), stand, value, value]
    by_cases later : k ∈ ps
    · rw [if_pos later, if_pos (List.mem_cons_of_mem p later)]
      split
      next eq =>
        -- a stand-in that is written itself was not eliminated, so it stands for itself
        have own : (s.get (standIn s params k)).isSubstituted = false :=
          Param.not_isSubstituted_iff.mpr (represented.tag_standIn sorted
            (sub k (List.mem_cons_of_mem p later)))
        rw [← eq] at own
        rw [Expr.standIn_kept sorted memp own, eq]
      next => rfl
    · rw [if_neg later]
      by_cases eq : p = k
      · subst eq
        rw [if_pos rfl, if_pos List.mem_cons_self]
      · rw [if_neg eq, if_neg fun h => (List.mem_cons.mp h).elim (fun e => eq e.symm) later]

/-- **Writing back gives every parameter the value of its stand-in.** -/
theorem value_writeBack (sorted : IdList.Sorted s.id params) (represented : Represented params s)
    (mem : h ∈ params.toList) :
    (Problem.writeBack params s).value h = s.value (standIn s params h) := by
  unfold Problem.writeBack
  rw [value_foldl_writeBackOne h sorted represented fun _ hp => hp, if_pos mem]

end WriteBack

/-! ## The main system -/

/-- What an equation demands: of two parameters that they are equal, else a small residual. -/
def Equation.Satisfied [Add α] [Sub α] [Mul α] [Div α] [Neg α] [LT α] [DecidableLT α]
    [Elementary α] (e : Equation α) (tolerance : α) (s : Store α) : Prop :=
  match e.expr.paramDifference? with
  | some (a, b) => s.value a = s.value b
  | none => Scalar.abs (e.expr.eval s.value) < tolerance

namespace Equation.Satisfied

variable [Add α] [Sub α] [Mul α] [Div α] [Neg α] [LT α] [DecidableLT α] [Elementary α]
variable {e e' : Equation α} {tolerance : α} {s t : Store α}

/-- What an equation demands is about the parameters that it mentions. -/
theorem congr (satisfied : e.Satisfied tolerance s)
    (same : ∀ h ∈ e.expr.params, t.value h = s.value h) : e.Satisfied tolerance t := by
  unfold Satisfied at *
  cases difference : e.expr.paramDifference? with
  | none =>
    simp only [difference] at satisfied ⊢
    rw [e.expr.eval_congr same]
    exact satisfied
  | some pair =>
    simp only [difference] at satisfied ⊢
    obtain ⟨first, second⟩ := Expr.mem_params_of_difference difference
    rw [same _ first, same _ second]
    exact satisfied

/-- Tags demand nothing. -/
theorem of_untagged (satisfied : e.Satisfied tolerance s) (same : e.untagged = e'.untagged) :
    e'.Satisfied tolerance s := by
  unfold Satisfied at *
  rw [← Equation.expr_of_untagged same]
  exact satisfied

end Equation.Satisfied

section Solve

variable [One α] [Add α] [Sub α] [Mul α] [Div α] [Neg α] [LT α] [LE α] [BEq α]
variable [DecidableLT α] [DecidableLE α] [Elementary α] {tolerance : α} {group : Nat}
variable {p q : Problem α} {s t : Store α}

/-- The main system is solved when its equations are independent and the run on it succeeds. -/
theorem solveTogether_ok {j : Jacobian α} {n : Nat}
    (solved : p.solveTogether tolerance s = (.ok (j, n), t)) :
    Jacobian.write 0 s p.params p.equations p.settings.maxUnknowns = .ok j ∧
      Linear.rank p.settings.rankThreshold (j.matrix s.value) = j.rows.length ∧
      Newton.run p.settings p.dragged tolerance j s = (.ok n, t) := by
  unfold Problem.solveTogether at solved
  split at solved
  next => simp at solved
  next j' written =>
    simp only at solved
    split at solved
    next => simp at solved
    next independent =>
      split at solved
      next => simp at solved
      next steps u ran =>
        simp only [Prod.mk.injEq, Except.ok.injEq] at solved
        obtain ⟨⟨rfl, rfl⟩, rfl⟩ := solved
        exact ⟨written, Decidable.not_not.mp independent, ran⟩

/-- Once the main system is solved, all equations hold at the values of the stand-ins. -/
theorem holdsAt_of_solveTogether {j : Jacobian α} {n : Nat} (stage : Stage tolerance group p s)
    (solved : p.solveTogether tolerance s = (.ok (j, n), t)) :
    Store.Moved j.columns s t ∧ ∀ e ∈ p.equations.toList, e.expr.paramDifference? = none →
      e.HoldsAt tolerance p.params t := by
  obtain ⟨written, _, ran⟩ := solveTogether_ok solved
  have moved := Newton.run_moved p.settings p.dragged tolerance j s
  rw [ran] at moved
  have conv := (Newton.run_ok ran).2
  -- settled parameters carry the tag of their group, so they are no columns
  have settled : ∀ r ∈ p.params.toList, (s.get r).known = true → t.value r = s.value r :=
    fun r memr known => moved.value fun column =>
      (stage.marked.known r memr known).1 ((Jacobian.mem_columns written).mp column).2
  have stand : ∀ k, standIn t p.params k = standIn s p.params k := standIn_of_moved moved
  refine ⟨moved, fun e he none => ?_⟩
  unfold Equation.HoldsAt
  simp only [stand]
  by_cases free : e.tag = 0
  · obtain ⟨row, hrow, residual⟩ := Jacobian.exists_row written he free
    have small := converged_residual conv row hrow
    rw [residual, Expr.eval_frozen_standIn stage.ready.sorted (stage.ready.listed e he)
      settled] at small
    exact small
  · -- settled by an earlier group, whose parameters this run does not move
    have kept : e.tag ≠ usedUpTag := fun eq => by
      have := (stage.usedUp e he).mp eq
      rw [none] at this
      simp at this
    obtain ⟨known, holds⟩ := stage.settled e he free kept
    rw [Expr.eval_congr e.expr fun k hk => settled _
      (Expr.standIn_mem stage.ready.sorted (stage.ready.listed e he k hk)) (known k hk)]
    exact holds

/-- The phases of a solve that succeeds. -/
theorem solve_ok {rough : Bool} {report : Report} (solved : p.solve rough s = (.ok report, q, t)) :
    ∃ groups equations s₁ alone s₂ j iterations s₃,
      EqualGroup.merge (p.resetScratch s).2 p.params (p.resetScratch s).1.equations p.dragged =
        (.ok groups, equations, s₁) ∧
      { p with equations }.solveAlones (p.settings.tolerance rough) s₁ = (.ok alone, q, s₂) ∧
      q.solveTogether (p.settings.tolerance rough) s₂ = (.ok (j, iterations), s₃) ∧
      t = Problem.writeBack q.params s₃ ∧
      report = ⟨j.columns.length - j.rows.length, j.columns.length, j.rows.length, iterations, alone,
        EqualGroup.eliminated groups⟩ := by
  unfold Problem.solve at solved
  simp only at solved
  split at solved
  next => simp at solved
  next groups equations s₁ merged =>
    refine ⟨groups, equations, s₁, ?_⟩
    unfold Problem.solveMerged at solved
    split at solved
    next => simp at solved
    next n q' s₂ alones =>
      split at solved
      next => simp at solved
      next j steps s₃ together =>
        simp only [Prod.mk.injEq, Except.ok.injEq] at solved
        obtain ⟨rfl, rfl, rfl⟩ := solved
        exact ⟨n, s₂, j, steps, s₃, merged, alones, together, rfl, rfl⟩

/-- A solve that succeeds satisfies all equations, if the phases before the main system lead to a
stage. -/
theorem satisfied_of_last_stage {rough : Bool} {report : Report}
    (solved : p.solve rough s = (.ok report, q, t))
    (last : ∀ groups equations u n v,
      EqualGroup.merge (p.resetScratch s).2 p.params (p.resetScratch s).1.equations p.dragged =
        (.ok groups, equations, u) →
      { p with equations }.solveAlones (p.settings.tolerance rough) u = (.ok n, q, v) →
      ∃ group, Stage (p.settings.tolerance rough) group q v) :
    ∀ e ∈ p.equations.toList, e.Satisfied (p.settings.tolerance rough) t := by
  have untagged := (Problem.solve_frame p rough s).equations
  rw [solved] at untagged
  obtain ⟨groups, equations, s₁, n, s₂, j, steps, s₃, merged, alones, together, rfl, _⟩ :=
    solve_ok solved
  obtain ⟨group, stage⟩ := last groups equations s₁ n s₂ merged alones
  obtain ⟨moved, holds⟩ := holdsAt_of_solveTogether stage together
  have sorted : IdList.Sorted s₃.id q.params := stage.ready.sorted.congr fun k _ => moved.id k
  -- the main system has moved values only, so marks and stand-ins are those of the last stage
  have represented := (stage.marked.of_moved moved).represented
  intro e he
  obtain ⟨e', he', eq⟩ := EquationList.exists_of_untagged untagged he
  have expr : e'.expr = e.expr := Equation.expr_of_untagged eq
  have listed : ∀ h ∈ e.expr.params, h ∈ q.params.toList := expr ▸ stage.ready.listed e' he'
  unfold Equation.Satisfied
  split
  next a b difference =>
    obtain ⟨mema, memb⟩ := Expr.mem_params_of_difference difference
    rw [value_writeBack sorted represented (listed a mema),
      value_writeBack sorted represented (listed b memb), standIn_of_moved moved,
      standIn_of_moved moved, stage.equal e' he' a b (expr ▸ difference)]
  next none =>
    rw [Expr.eval_congr e.expr fun k hk => value_writeBack sorted represented (listed k hk)]
    have := holds e' he' (expr ▸ none)
    unfold Equation.HoldsAt at this
    rw [expr] at this
    exact this

/-- A ready problem with few equations is satisfied by a solve that succeeds. -/
theorem satisfied_of_ready {rough : Bool} {report : Report} (ready : p.Ready s)
    (few : p.equations.size ≤ 10000) (solved : p.solve rough s = (.ok report, q, t)) :
    ∀ e ∈ p.equations.toList, e.Satisfied (p.settings.tolerance rough) t :=
  -- reset, merge, solve alone, solve together: each phase starts from the stage of the one before
  satisfied_of_last_stage solved fun _ _ _ _ _ merged alones =>
    stage_of_phases ready few merged alones

/-- **A solve that succeeds satisfies every equation that was loaded**, from any values and scratch of
the parameters, as long as group numbers stay below the reserved tags. -/
theorem satisfied_of_solve {problem : Problem α} {s₀ : Store α} {equations : EquationList α}
    {dragged : List Handle} {rough : Bool} {report : Report}
    (own : OwnIds s₀ (Problem.mentioned equations)) (few : equations.size ≤ 10000)
    (loaded : problem.load s₀ equations dragged = (.ok (), p)) (ids : ∀ h, s.id h = s₀.id h)
    (solved : p.solve rough s = (.ok report, q, t)) :
    ∀ e ∈ equations.toList, e.Satisfied (problem.settings.tolerance rough) t := by
  obtain ⟨params, eq, _⟩ := Problem.load_ok problem own dragged
  have ready := Problem.ready_of_load own loaded
  rw [eq] at loaded
  cases loaded
  exact satisfied_of_ready (ready.congr rfl rfl ids) few solved

end Solve

/-- Two parameters. -/
def twoParams : Store Float :=
  ⟨#[{ id := 1, value := 0, symbol := "x" }, { id := 2, value := 5, symbol := "y" }]⟩

/-- Two parameters are equal, and the first one is three. -/
def pinnedPair : EquationList Float :=
  ⟨#[{ id := 1, expr := .binary .minus (.param ⟨0⟩) (.param ⟨1⟩) },
    { id := 2, expr := .binary .minus (.param ⟨0⟩) (.const 3) }]⟩

/-- Two equations hold after a solve: the parameters are equal, and both are three. -/
theorem satisfied_pinnedPair : ∃ p report q t,
    ({ settings := Settings.standard } : Problem Float).load twoParams pinnedPair [⟨0⟩] =
      (.ok (), p) ∧
    p.solve false twoParams = (.ok report, q, t) ∧
    ∀ e ∈ pinnedPair.toList, e.Satisfied (Settings.standard.tolerance false) t := by
  have own : OwnIds twoParams (Problem.mentioned pinnedPair) :=
    ⟨by decide +kernel, by decide +kernel⟩
  obtain ⟨params, loaded, _⟩ := Problem.load_ok { settings := Settings.standard } own [⟨0⟩]
  have succeeds : ((({ settings := Settings.standard } : Problem Float).load twoParams pinnedPair
      [⟨0⟩]).2.solve false twoParams).1.toOption.isSome = true := by
    decide +kernel
  rw [loaded] at succeeds
  cases solved : Problem.solve
    { settings := Settings.standard, equations := pinnedPair, params,
      dragged := [(⟨0⟩ : Handle)].map twoParams.id } false twoParams with
  | mk result rest =>
    rw [solved] at succeeds
    cases result with
    | error e => simp [Except.toOption] at succeeds
    | ok report =>
      have few : pinnedPair.size ≤ 10000 := by decide
      have ids : ∀ h, twoParams.id h = twoParams.id h := fun _ => rfl
      have satisfied := satisfied_of_solve own few loaded ids solved
      exact ⟨_, report, rest.1, rest.2, loaded, solved, satisfied⟩

end SketchSolver
