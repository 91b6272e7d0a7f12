import SketchSolver.Proofs.Equality.Grouping
import SketchSolver.Proofs.Problem.QueuedGroups

/-!
# Groups on their own

`Problem.groupAt?` is the group that a solve makes of the equation at a position. When the
Jacobian of a group is written, its unknown should be the only column and its equation the
only row. Each holds unless the number of the group is a reserved tag that something carries
(`isolated_iff`). What was eliminated comes from an equation between two different parameters
(`exists_eliminated_iff`), and what was used up is an equation between parameters. Positions
bound the numbers, so up to ten thousand equations make groups that are on their own.

The condition is stated in terms of what is loaded, and not of tags. Whether a parameter
carries the tag for elimination when the group is written is a fact about a state in the
middle of a solve; that some equation is the difference of two parameters can be read off the
equations. The step between them is `Tagging`, which says of every listed
parameter and every equation of the problem which tag it has before a group with a given
number, on the assumption that it is known what was eliminated.

That a group is on its own is more than a matter of tidiness. A column too many is a parameter
that follows another one and is an unknown of its own here, and a row too many is an equation
that was used up and takes part once more. Where the number of unknowns is limited the group
may not even be written, and then the solve fails with it (`solve_of_groupAt?_error`).

Numbers of groups count up from one, one for each equation that is solved alone. So the
number of a group is at most the position of its equation, counted from one
(`number_le_of_groupAt?`), and a bound on the number of equations is a bound on group numbers.
-/

namespace SketchSolver

open Relation (EqvGen)

variable {α : Type} [Zero α]

/-! ## What is eliminated, and what is used up -/

section Merge

variable {p : Problem α} {s t : Store α} {groups : List EqualGroup} {equations : EquationList α}

/-- What merging eliminates is bound, and related to another id. -/
theorem related_of_eliminated {h : Handle} (sorted : IdList.Sorted s.id p.params)
    (fresh : ∀ h ∈ p.params.toList, s.tag h = 0)
    (merged : EqualGroup.merge s p.params p.equations p.dragged = (.ok groups, equations, t))
    (mem : h ∈ p.params.toList) (gone : t.tag h = substitutedTag) :
    ∃ x, x ≠ s.id h ∧ (∃ z, EqualGroup.Bound s p.equations (s.id h) z) ∧
      EqvGen (EqualGroup.Bound s p.equations) (s.id h) x := by
  obtain ⟨rfl, _, rfl⟩ := EqualGroup.merge_ok merged
  have classifies := EqualGroup.classifies_ofPairs s p.equations p.dragged
  have eliminates := EqualGroup.eliminates_ofPairs sorted p.dragged
    (p.equations.toList.filterMap (·.bound? s))
  by_cases other : ∃ g ∈ EqualGroup.ofPairs p.dragged (p.equations.toList.filterMap (·.bound? s)),
      s.id h ∈ g.members ∧ s.id h ≠ g.representative
  · obtain ⟨g, hg, member, ne⟩ := other
    obtain ⟨bound, related⟩ := (classifies.classes _ _).mp
      ⟨g, hg, member, classifies.represented g hg⟩
    exact ⟨g.representative, ne.symm, bound, related⟩
  · -- a parameter that every group passes over is as free as before
    have same := eliminates.kept h fun g hg _ member =>
      Decidable.byContradiction fun ne => other ⟨g, hg, member, ne⟩
    unfold Store.tag at gone
    rw [same] at gone
    have free := fresh h mem
    unfold Store.tag at free
    rw [free] at gone
    exact absurd gone (by decide)

/-- **Something is eliminated exactly when an equation is between two different parameters.** -/
theorem exists_eliminated_iff (ready : p.Ready s) (fresh : ∀ h ∈ p.params.toList, s.tag h = 0)
    (merged : EqualGroup.merge s p.params p.equations p.dragged = (.ok groups, equations, t)) :
    (∃ h ∈ p.params.toList, t.tag h = substitutedTag) ↔
      ∃ e ∈ p.equations.toList, ∃ a b, e.expr = (Expr.param a).minus (.param b) ∧ a ≠ b := by
  constructor
  · rintro ⟨h, mem, gone⟩
    obtain ⟨x, ne, _, related⟩ := related_of_eliminated ready.sorted fresh merged mem gone
    by_contra none
    -- equations of a parameter with itself relate no two ids
    have agree : ∀ x y, EqualGroup.Bound s p.equations x y → x = y := by
      rintro x y ⟨e, he, a, b, difference, ids⟩
      have same : a = b := Decidable.byContradiction fun ne => none ⟨e, he, a, b, difference, ne⟩
      subst same
      rcases ids with ⟨rfl, eq⟩ | ⟨rfl, eq⟩
      · exact eq
      · exact eq.symm
    exact ne (Forest.eq_of_eqvGen (v := fun x => x) agree related).symm
  · rintro ⟨e, he, a, b, difference, ne⟩
    have params := Expr.mem_params_of_difference (Expr.paramDifference?_eq_some_iff.mpr difference)
    have mema := ready.listed e he a params.1
    have memb := ready.listed e he b params.2
    have differ : s.id a ≠ s.id b := fun eq => ne (ready.sorted.eq_of_key_eq mema memb eq)
    have bound : EqualGroup.Bound s p.equations (s.id a) (s.id b) :=
      ⟨e, he, a, b, difference, Or.inl ⟨rfl, rfl⟩⟩
    obtain ⟨rfl, _, rfl⟩ := EqualGroup.merge_ok merged
    have eliminates := EqualGroup.eliminates_ofPairs ready.sorted p.dragged
      (p.equations.toList.filterMap (·.bound? s))
    obtain ⟨g, hg, ina, inb⟩ :=
      ((EqualGroup.classifies_ofPairs s p.equations p.dragged).classes _ _).mpr
        ⟨⟨_, bound⟩, .rel _ _ bound⟩
    -- one of the two does not represent the group
    by_cases eq : s.id a = g.representative
    · refine ⟨b, memb, ?_⟩
      unfold Store.tag
      rw [eliminates.eliminated g hg b memb inb fun eq' => differ (eq.trans eq'.symm)]
      rfl
    · refine ⟨a, mema, ?_⟩
      unfold Store.tag
      rw [eliminates.eliminated g hg a mema ina eq]
      rfl

/-- Likewise for the merging of a solve, which starts from a reset. -/
theorem exists_eliminated_reset_iff (ready : p.Ready s)
    (merged : EqualGroup.merge (p.resetScratch s).2 p.params (p.resetScratch s).1.equations
      p.dragged = (.ok groups, equations, t)) :
    (∃ h ∈ p.params.toList, t.tag h = substitutedTag) ↔
      ∃ e ∈ p.equations.toList, ∃ a b, e.expr = (Expr.param a).minus (.param b) ∧ a ≠ b := by
  have frame := Problem.resetScratch_frame p s
  have iff := exists_eliminated_iff (p := (p.resetScratch s).1) (frame.ready ready)
    (fun h mem => (Problem.fresh_resetScratch p s h mem).1) merged
  rw [EquationList.exists_expr_iff frame.equations
    (P := fun e => ∃ a b, e = (Expr.param a).minus (.param b) ∧ a ≠ b)] at iff
  exact iff

end Merge

section Solve

variable [One α] [Add α] [Sub α] [Mul α] [Div α] [Neg α] [LT α] [BEq α]
variable [DecidableLT α] [Elementary α]

namespace Problem

/-- The group that a solve makes of the equation at a position, if it gets that far and the equation
can be solved alone then. -/
def groupAt? (p : Problem α) (rough : Bool) (s : Store α) (n : Nat) : Option (LoneGroup α) :=
  match EqualGroup.merge (p.resetScratch s).2 p.params (p.resetScratch s).1.equations
    p.dragged with
  | (.error _, _, _) => none
  | (.ok _, equations, s) =>
    match solveAlonesFrom (p.settings.tolerance rough) 1 ((equations.toList.map (·.id)).take n)
      { p with equations } s with
    | (.error _, _, _) => none
    | (.ok number, q, s) => ((equations.toList.map (·.id))[n]?).bind (q.loneGroup? s number)

variable {p q : Problem α} {s t u : Store α} {g : LoneGroup α} {rough : Bool} {n : Nat}

/-- A group is made of an equation when the equations before it have been through. -/
theorem groupAt?_eq_some_iff : p.groupAt? rough s n = some g ↔
    ∃ groups equations u id number q t,
      EqualGroup.merge (p.resetScratch s).2 p.params (p.resetScratch s).1.equations p.dragged =
        (.ok groups, equations, u) ∧
      (equations.toList.map (·.id))[n]? = some id ∧
      solveAlonesFrom (p.settings.tolerance rough) 1 ((equations.toList.map (·.id)).take n)
        { p with equations } u = (.ok number, q, t) ∧
      q.loneGroup? t number id = some g := by
  constructor
  · intro formed
    unfold groupAt? at formed
    split at formed
    next => simp at formed
    next groups equations u merged =>
      split at formed
      next => simp at formed
      next number q t solved =>
        obtain ⟨id, here, lone⟩ := Option.bind_eq_some_iff.mp formed
        exact ⟨groups, equations, u, id, number, q, t, merged, here, solved, lone⟩
  · rintro ⟨groups, equations, u, id, number, q, t, merged, here, solved, lone⟩
    unfold groupAt?
    rw [merged]
    simp only
    rw [solved, here]
    exact lone

/-- Groups are numbered no faster than equations. -/
theorem number_le_of_groupAt? (formed : p.groupAt? rough s n = some g) : g.number ≤ n + 1 := by
  obtain ⟨groups, equations, u, id, number, q, t, _, _, solved, lone⟩ :=
    groupAt?_eq_some_iff.mp formed
  obtain ⟨_, _, rfl, _⟩ := loneGroup?_spec lone
  have numbers := numbers_solveAlonesFrom solved
  have length := List.length_take_le n (equations.toList.map (·.id))
  omega

/-- A group is made where merging and the groups before it have left their tags. -/
theorem tagging_of_groupAt? (ready : p.Ready s) (formed : p.groupAt? rough s n = some g) :
    ∃ groups equations u q t id,
      EqualGroup.merge (p.resetScratch s).2 p.params (p.resetScratch s).1.equations p.dragged =
        (.ok groups, equations, u) ∧
      Frame p s q t ∧ q.loneGroup? t g.number id = some g ∧
      Tagging (fun h => u.tag h = substitutedTag) g.number q t := by
  obtain ⟨groups, equations, u, id, number, q, t, merged, _, solved, lone⟩ :=
    groupAt?_eq_some_iff.mp formed
  obtain ⟨_, _, rfl, _⟩ := loneGroup?_spec lone
  have first := (stage_resetScratch ready (p.settings.tolerance rough) merged).tagging
  have chain := solveAlonesFrom_frame (p.settings.tolerance rough)
    ((equations.toList.map (·.id)).take n) 1 { p with equations } u
  rw [solved] at chain
  exact ⟨groups, equations, u, q, t, id, merged, (merge_frame merged).trans chain, lone,
    first.chain solved⟩

/-- The problem of a group has the settings of the solve. -/
theorem settings_of_groupAt? (ready : p.Ready s) (formed : p.groupAt? rough s n = some g) :
    g.problem.settings = p.settings := by
  obtain ⟨_, _, _, q, _, _, _, frame, lone, _⟩ := tagging_of_groupAt? ready formed
  obtain ⟨_, _, _, problem, _⟩ := loneGroup?_spec lone
  rw [problem]
  exact frame.settings

/-- A group selects its unknown. -/
theorem unknown_mem_columns (ready : p.Ready s) (formed : p.groupAt? rough s n = some g) :
    g.unknown ∈ g.columns := by
  obtain ⟨_, _, _, q, t, _, _, _, lone, tagging⟩ := tagging_of_groupAt? ready formed
  obtain ⟨mem, _⟩ := tagging.fresh lone
  obtain ⟨_, _, _, problem, store⟩ := loneGroup?_spec lone
  refine List.mem_filter.mpr ⟨?_, ?_⟩
  · rw [problem]
    exact mem
  · rw [store, Store.tag_setTag, if_pos rfl, beq_self_eq_true]

/-- A group selects its equation. -/
theorem equation_mem_selected (ready : p.Ready s) (formed : p.groupAt? rough s n = some g) :
    { g.equation with tag := g.number } ∈ g.selected := by
  obtain ⟨_, _, _, q, t, _, _, _, lone, _⟩ := tagging_of_groupAt? ready formed
  obtain ⟨found, _, _, problem, _⟩ := loneGroup?_spec lone
  refine List.mem_filter.mpr ⟨?_, beq_self_eq_true _⟩
  rw [problem]
  exact EquationList.tagged_mem_setTag found g.number

/-- What a group selects as unknowns. -/
theorem columns_of_groupAt?_iff (ready : p.Ready s) (formed : p.groupAt? rough s n = some g) :
    g.columns = [g.unknown] ↔ ¬(g.number = substitutedTag ∧
      ∃ e ∈ p.equations.toList, ∃ a b, e.expr = (Expr.param a).minus (.param b) ∧ a ≠ b) := by
  obtain ⟨_, _, _, _, _, _, merged, frame, lone, tagging⟩ := tagging_of_groupAt? ready formed
  rw [tagging.columns_iff lone, frame.params, exists_eliminated_reset_iff ready merged]

/-- What a group selects as equations. -/
theorem selected_of_groupAt?_iff (ready : p.Ready s) (formed : p.groupAt? rough s n = some g) :
    g.selected = [{ g.equation with tag := g.number }] ↔ ¬(g.number = usedUpTag ∧
      ∃ e ∈ p.equations.toList, ∃ a b, e.expr = (Expr.param a).minus (.param b)) := by
  obtain ⟨_, _, _, _, _, _, _, frame, lone, tagging⟩ := tagging_of_groupAt? ready formed
  rw [tagging.selected_iff lone]
  simp only [Expr.isSome_paramDifference?_iff]
  rw [EquationList.exists_expr_iff frame.equations
    (P := fun e => ∃ a b, e = (Expr.param a).minus (.param b))]

variable [LE α] [DecidableLE α]

/-- A solve fails with the group that it cannot solve. -/
theorem solve_of_groupAt?_error {e : SolveFailure α} (formed : p.groupAt? rough s n = some g)
    (failed : g.problem.solveAlone (p.settings.tolerance rough) g.number g.unknown g.store =
      (.error e, t)) : p.solve rough s = (.error e, g.problem, t) := by
  obtain ⟨groups, equations, u, id, number, q, v, merged, here, solved, lone⟩ :=
    groupAt?_eq_some_iff.mp formed
  obtain ⟨bound, eq⟩ := List.getElem?_eq_some_iff.mp here
  have chain : solveAlonesFrom (p.settings.tolerance rough) 1 (equations.toList.map (·.id))
      { p with equations } u = (.error e, g.problem, t) := by
    rw [← List.take_append_drop n (equations.toList.map (·.id)), List.drop_eq_getElem_cons bound,
      eq, solveAlonesFrom_append solved, solveAlonesFrom_loneGroup lone, failed]
  unfold solve
  simp only
  rw [show EqualGroup.merge (p.resetScratch s).2 (p.resetScratch s).1.params
    (p.resetScratch s).1.equations (p.resetScratch s).1.dragged = _ from merged]
  unfold solveMerged solveAlones
  simp only
  rw [show solveAlonesFrom _ 1 _ { (p.resetScratch s).1 with equations } u = _ from chain]

end Problem

variable {problem p : Problem α} {s₀ s : Store α} {equations : EquationList α}
variable {dragged : List Handle} {rough : Bool} {n : Nat} {g : LoneGroup α} {j : Jacobian α}

/-- **A group is on its own unless its number is a reserved tag that something carries.** Its unknown
is the only column unless its number is the tag of eliminated parameters and some equation is between
two different parameters, and its equation is the only row unless its number is the tag of used up
equations and some equation is between parameters. -/
theorem isolated_iff (own : OwnIds s₀ (Problem.mentioned equations))
    (loaded : problem.load s₀ equations dragged = (.ok (), p)) (ids : ∀ h, s.id h = s₀.id h)
    (formed : p.groupAt? rough s n = some g) (written : g.jacobian = .ok j) :
    g.number ≤ n + 1 ∧ (∀ h ∈ g.equation.expr.params, h = g.unknown) ∧
      (j.columns = [g.unknown] ↔ ¬(g.number = substitutedTag ∧
        ∃ e ∈ equations.toList, ∃ a b, e.expr = (Expr.param a).minus (.param b) ∧ a ≠ b)) ∧
      (j.rows = [Jacobian.row g.store g.problem.params j.columns g.equation] ↔
        ¬(g.number = usedUpTag ∧
          ∃ e ∈ equations.toList, ∃ a b, e.expr = (Expr.param a).minus (.param b))) := by
  obtain ⟨ready, rfl, _⟩ := Problem.ready_of_loaded own loaded ids
  obtain ⟨_, _, _, _, _, _, _, _, lone, tagging⟩ := Problem.tagging_of_groupAt? ready formed
  obtain ⟨_, _, _, only⟩ := tagging.fresh lone
  have mem := Problem.equation_mem_selected ready formed
  refine ⟨Problem.number_le_of_groupAt? formed, only, ?_, ?_⟩
  · rw [(LoneGroup.jacobian_ok written).1]
    exact Problem.columns_of_groupAt?_iff ready formed
  · rw [LoneGroup.rows_iff written mem]
    exact Problem.selected_of_groupAt?_iff ready formed

end Solve

/-- The first group of three equations is on its own. -/
theorem isolated_pinnedSum : ∃ p g j,
    ({ settings := Settings.standard } : Problem Float).load fourParams pinnedSum [⟨0⟩] =
      (.ok (), p) ∧
    p.groupAt? false fourParams 1 = some g ∧ g.jacobian = .ok j ∧ j.columns = [g.unknown] ∧
    j.rows = [Jacobian.row g.store g.problem.params j.columns g.equation] := by
  -- the number of the group is evaluated; that it is no reserved tag is all there is to check
  have own : OwnIds fourParams (Problem.mentioned pinnedSum) :=
    ⟨by decide +kernel, by decide +kernel⟩
  obtain ⟨params, loaded, _⟩ := Problem.load_ok { settings := Settings.standard } own [⟨0⟩]
  have told : ((({ settings := Settings.standard } : Problem Float).load fourParams pinnedSum
      [⟨0⟩]).2.groupAt? false fourParams 1).bind (fun g => g.jacobian.toOption.map
        fun _ => g.number) = some 1 := by
    decide +kernel
  rw [loaded] at told
  obtain ⟨g, formed, told⟩ := Option.bind_eq_some_iff.mp told
  obtain ⟨j, written, number⟩ := Option.map_eq_some_iff.mp told
  have ok : g.jacobian = .ok j := by
    cases result : g.jacobian with
    | error e =>
      rw [result] at written
      simp [Except.toOption] at written
    | ok j' =>
      rw [result] at written
      rw [Option.some.inj written]
  have ids : ∀ h, fourParams.id h = fourParams.id h := fun _ => rfl
  obtain ⟨_, _, columns, rows⟩ := isolated_iff own loaded ids formed ok
  refine ⟨_, g, j, loaded, formed, ok, columns.mpr ?_, rows.mpr ?_⟩
  · intro reserved
    rw [number] at reserved
    exact absurd reserved.1 (by decide)
  · intro reserved
    rw [number] at reserved
    exact absurd reserved.1 (by decide)

end SketchSolver
