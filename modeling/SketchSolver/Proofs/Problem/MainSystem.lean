import SketchSolver.Proofs.Problem.Soundness

/-!
# The main system has no hidden unknowns

The main system is what remains after parameters were merged and equations were solved alone
(`MainSystem`). All that its Jacobian mentions are its own columns, and a column is a
parameter that no phase has settled, taken or eliminated (`reads_columns_of_mainSystem`). So
while the main system is solved, the residuals depend on nothing but the columns.

A row mentions stand-ins that are not settled: freezing an equation puts numbers for settled
parameters and representatives for eliminated ones. What is left in it are listed parameters
that are neither. To be a column a parameter has to carry the tag zero, though, and there are
two other tags that it might carry. The tag for elimination is out of the question because a
stand-in is not eliminated. The number of an earlier group is, because a group leaves nothing
half done: what it takes it also settles (`TakenSettled`).

Without the last property a parameter could be free and yet no column. Newton's method would
then not move it, but a residual would depend on it, and a partial derivative with respect to
it would be missing from the system.

`TakenSettled` holds after merging, for nothing was taken by then, and each group keeps it
(`Settles.takenSettled`). A group that fails has taken a parameter without settling it, but
then there is no main system.

At the end `mainSystem_of_solve` ties this to the outcome: a solve that reports has reached
its main system, and the report tells its size.
-/

namespace SketchSolver

open SketchSolver.Expr (standIn)

variable {α : Type} [Zero α]

/-- A parameter that a group has taken is settled. -/
def TakenSettled (params : ParamList) (s : Store α) : Prop :=
  ∀ h ∈ params.toList, s.tag h ≠ 0 → s.tag h ≠ substitutedTag → (s.get h).known = true

/-- Merging takes nothing for a group. -/
theorem takenSettled_merge {p : Problem α} {s t : Store α} {groups : List EqualGroup}
    {equations : EquationList α} (sorted : IdList.Sorted s.id p.params)
    (fresh : ∀ h ∈ p.params.toList, s.tag h = 0)
    (merged : EqualGroup.merge s p.params p.equations p.dragged = (.ok groups, equations, t)) :
    TakenSettled p.params t := by
  intro h mem taken kept
  unfold Store.tag at taken kept
  rcases get_merge sorted merged mem with ⟨g, _, eq⟩ | eq
  · rw [eq] at kept
    exact absurd rfl kept
  · rw [eq] at taken
    exact absurd (fresh h mem) taken

/-- A group settles the one parameter that it takes. -/
theorem Settles.takenSettled {group : Nat} {h : Handle} {s t : Store α} {params : ParamList}
    (settles : Settles group h s t) (taken : TakenSettled params s) : TakenSettled params t := by
  intro k mem used kept
  by_cases eq : k = h
  · rw [eq, settles.self]
  · rw [settles.tag_other eq] at used kept
    rw [settles.other eq]
    exact taken k mem used kept

section Solve

variable [One α] [Add α] [Sub α] [Mul α] [Div α] [Neg α] [LT α] [BEq α]
variable [DecidableLT α] [Elementary α] {tolerance : α}

omit [BEq α] in
/-- Where all that is taken is settled, the Jacobian of the rest reads its columns alone. -/
theorem Stage.reads_columns {group : Nat} {p : Problem α} {s : Store α} {limit : Nat}
    {j : Jacobian α} (stage : Stage tolerance group p s) (taken : TakenSettled p.params s)
    (written : Jacobian.write 0 s p.params p.equations limit = .ok j) : j.Reads j.columns := by
  refine Jacobian.reads_of_frozen written (fun _ mem => mem) fun e he _ r hr => ?_
  have sorted := stage.ready.sorted
  obtain ⟨k, hk, mem⟩ := Expr.mem_params_frozen.mp hr
  have listed := stage.ready.listed e he k hk
  obtain ⟨rfl, unsettled⟩ := Expr.mem_of_mem_frozenLeaf (Expr.stand?_of_mem sorted listed) mem
  have memr := Expr.standIn_mem sorted listed
  have kept := stage.marked.represented.tag_standIn sorted listed
  refine (Jacobian.mem_columns written).mpr ⟨memr, Decidable.byContradiction fun used => ?_⟩
  rw [taken _ memr used kept] at unsettled
  simp at unsettled

namespace Problem

variable {p q : Problem α} {s t : Store α} {rough : Bool} {j : Jacobian α}

/-- A solve of `p` from `s` reaches its main system: the phases before it leave `q` and `t`, and `j`
is the Jacobian of what remains. -/
structure MainSystem (p : Problem α) (rough : Bool) (s : Store α) (q : Problem α) (t : Store α)
    (j : Jacobian α) : Prop where
  reached : ∃ groups equations u alone,
    EqualGroup.merge (p.resetScratch s).2 p.params (p.resetScratch s).1.equations p.dragged =
      (.ok groups, equations, u) ∧
    { p with equations }.solveAlones (p.settings.tolerance rough) u = (.ok alone, q, t)
  written : Jacobian.write 0 t q.params q.equations q.settings.maxUnknowns = .ok j

/-- At the main system of a problem with few equations, the last stage is reached and all that was
taken is settled. -/
theorem stage_of_mainSystem (ready : p.Ready s) (few : p.equations.size ≤ 10000)
    (main : MainSystem p rough s q t j) :
    (∃ group, Stage (p.settings.tolerance rough) group q t) ∧ TakenSettled q.params t := by
  obtain ⟨groups, equations, u, alone, merged, alones⟩ := main.reached
  refine ⟨stage_of_phases ready few merged alones, ?_⟩
  have sorted := ((resetScratch_frame p s).ready ready).sorted
  have taken : TakenSettled p.params u :=
    takenSettled_merge (p := (p.resetScratch s).1) sorted
      (fun h mem => (fresh_resetScratch p s h mem).1) merged
  obtain ⟨group, _, first, bound, chain⟩ := chain_of_phases ready few merged alones
  exact invariant_solveAlonesFrom (motive := fun p s => TakenSettled p.params s)
    (fun _ _ settles taken => settles.takenSettled taken) first bound chain taken

end Problem

/-- **The Jacobian of the main system mentions its columns and nothing else**, and its columns are
parameters that no phase has settled, taken for a group or eliminated. So what is read while the main
system is solved depends on the columns alone. -/
theorem reads_columns_of_mainSystem {problem p q : Problem α} {s₀ s t : Store α}
    {equations : EquationList α} {dragged : List Handle} {rough : Bool} {j : Jacobian α}
    (own : OwnIds s₀ (Problem.mentioned equations)) (few : equations.size ≤ 10000)
    (loaded : problem.load s₀ equations dragged = (.ok (), p)) (ids : ∀ h, s.id h = s₀.id h)
    (main : p.MainSystem rough s q t j) :
    j.Reads j.columns ∧
      (∀ h ∈ j.columns, (t.get h).known = false ∧ t.tag h = 0 ∧
        (t.get h).isSubstituted = false) ∧
      ∀ env env' : Handle → α, (∀ h ∈ j.columns, env h = env' h) →
        j.residuals env = j.residuals env' ∧ j.matrix env = j.matrix env' := by
  obtain ⟨ready, rfl, _⟩ := Problem.ready_of_loaded own loaded ids
  obtain ⟨⟨group, stage⟩, taken⟩ := Problem.stage_of_mainSystem ready few main
  have reads := stage.reads_columns taken main.written
  refine ⟨reads, fun h column => ?_, fun env env' same => ?_⟩
  · obtain ⟨mem, tag⟩ := (Jacobian.mem_columns main.written).mp column
    refine ⟨Bool.eq_false_iff.mpr fun known => (stage.marked.known h mem known).1 tag, tag, ?_⟩
    refine Param.not_isSubstituted_iff.mpr (show t.tag h ≠ substitutedTag from ?_)
    rw [tag]
    decide
  · exact ⟨Jacobian.residuals_congr reads same, Jacobian.matrix_congr reads same⟩

variable [LE α] [DecidableLE α]

/-- A solve that succeeds has reached its main system, and reports the size of it. -/
theorem Problem.mainSystem_of_solve {p q : Problem α} {s u : Store α} {rough : Bool}
    {report : Report} (solved : p.solve rough s = (.ok report, q, u)) :
    ∃ t j, p.MainSystem rough s q t j ∧ report.unknowns = j.columns.length ∧
      report.equations = j.rows.length := by
  obtain ⟨groups, equations, s₁, alone, s₂, j, _, _, merged, alones, together, _, rfl⟩ :=
    solve_ok solved
  exact ⟨s₂, j, ⟨⟨groups, equations, s₁, alone, merged, alones⟩, (solveTogether_ok together).1⟩,
    rfl, rfl⟩

/-- What is known of the report of a solve tells that it succeeded. -/
theorem Problem.solve_of_toOption {β : Type} {p : Problem α} {s : Store α} {rough : Bool}
    {f : Report → β} {b : β} (h : (p.solve rough s).1.toOption.map f = some b) :
    ∃ report q t, p.solve rough s = (.ok report, q, t) ∧ f report = b := by
  obtain ⟨report, ok, eq⟩ := Option.map_eq_some_iff.mp h
  cases solved : p.solve rough s with
  | mk result rest =>
    rw [solved] at ok
    cases result with
    | error e => simp [Except.toOption] at ok
    | ok report' =>
      obtain rfl : report' = report := Option.some.inj ok
      exact ⟨_, rest.1, rest.2, rfl, eq⟩

end Solve

/-- Four parameters. -/
def fourParams : Store Float :=
  ⟨#[{ id := 1, value := 0, symbol := "x" }, { id := 2, value := 5, symbol := "y" },
    { id := 3, value := 1, symbol := "z" }, { id := 4, value := 1, symbol := "w" }]⟩

/-- Two parameters are equal, the first one is three, and the other two have the second one as their
sum. Each equation is used up by another phase. -/
def pinnedSum : EquationList Float :=
  ⟨#[{ id := 1, expr := .binary .minus (.param ⟨0⟩) (.param ⟨1⟩) },
    { id := 2, expr := .binary .minus (.param ⟨0⟩) (.const 3) },
    { id := 3, expr := .binary .minus (.binary .plus (.param ⟨2⟩) (.param ⟨3⟩)) (.param ⟨1⟩) }]⟩

/-- In three equations for four parameters the third equation is left, with its two unknowns. -/
theorem reads_columns_pinnedSum : ∃ p q t j,
    ({ settings := Settings.standard } : Problem Float).load fourParams pinnedSum [⟨0⟩] =
      (.ok (), p) ∧
    p.MainSystem false fourParams q t j ∧ j.columns.length = 2 ∧ j.rows.length = 1 ∧
    j.Reads j.columns ∧
    ∀ h ∈ j.columns, (t.get h).known = false ∧ t.tag h = 0 ∧ (t.get h).isSubstituted = false := by
  have own : OwnIds fourParams (Problem.mentioned pinnedSum) :=
    ⟨by decide +kernel, by decide +kernel⟩
  obtain ⟨params, loaded, _⟩ := Problem.load_ok { settings := Settings.standard } own [⟨0⟩]
  have size : ((({ settings := Settings.standard } : Problem Float).load fourParams pinnedSum
      [⟨0⟩]).2.solve false fourParams).1.toOption.map (fun r => (r.unknowns, r.equations)) =
      some (2, 1) := by
    decide +kernel
  rw [loaded] at size
  obtain ⟨report, q, u, solved, counts⟩ := Problem.solve_of_toOption size
  obtain ⟨t, j, main, unknowns, rows⟩ := Problem.mainSystem_of_solve solved
  simp only [Prod.mk.injEq] at counts
  have few : pinnedSum.size ≤ 10000 := by decide
  have ids : ∀ h, fourParams.id h = fourParams.id h := fun _ => rfl
  obtain ⟨reads, free, _⟩ := reads_columns_of_mainSystem own few loaded ids main
  exact ⟨_, _, t, j, loaded, main, unknowns ▸ counts.1, rows ▸ counts.2, reads, free⟩

end SketchSolver
