import SketchSolver.Proofs.Problem.Soundness

/-!
# Equations in several unknowns

Where every equation but the differences of two parameters mentions several parameters, none
is ever solved alone (`solveAlonesFrom_varied`). Then there are no groups to be numbered, and
a solve that succeeds satisfies all equations, however many there are (`satisfied_of_varied`).

The parameters of an equation are those that it was loaded with. That two of them are merged
does not make one of them, and neither does settling all but one: an equation in several
parameters stays one, and is left to the main system. So the condition is about the equations
of the problem and not about a state of the solve, and it can be checked when they are made.

Equations of constraints are of this sort, unless a constraint is about one parameter in
several places. Since the bound on the number of equations elsewhere is there for the numbers
of groups alone, it is not needed here. The proof follows the other one: it starts from the
stage that merging leaves, and the chain of groups is empty.

A chain that finds no equation to solve returns the number it was given, and problem and
store as they were. The induction is on the list of ids, whatever they are.
-/

namespace SketchSolver

variable {α : Type}

/-- The expression mentions two different parameters. -/
def Expr.Varied (e : Expr α) : Prop := ∃ a ∈ e.params, ∃ b ∈ e.params, a ≠ b

section Solve

variable [Zero α] [One α] [Add α] [Sub α] [Mul α] [Div α] [Neg α] [LT α] [BEq α]
variable [DecidableLT α] [Elementary α] {p q : Problem α} {s t : Store α} {tolerance : α}

/-- Where what is not taken is varied, the chain of groups is empty. -/
theorem solveAlonesFrom_varied (ready : p.Ready s)
    (varied : ∀ e ∈ p.equations.toList, e.tag = 0 → e.expr.Varied) (group : Nat) :
    ∀ ids, Problem.solveAlonesFrom tolerance group ids p s = (.ok group, p, s)
  | [] => rfl
  | id :: ids => by
    have none : (p.equations.byId? id).bind (p.loneUnknown? s) = none := by
      refine Option.eq_none_iff_forall_ne_some.mpr fun h lone => ?_
      obtain ⟨e, found, lone⟩ := Option.bind_eq_some_iff.mp lone
      have he := (IdList.find?_some found).1
      obtain ⟨free, _, only⟩ := Problem.loneUnknown?_spec ready he lone
      obtain ⟨a, ha, b, hb, ne⟩ := varied e he free
      exact ne ((only a ha).trans (only b hb).symm)
    unfold Problem.solveAlonesFrom
    rw [none]
    exact solveAlonesFrom_varied ready varied group ids

variable [LE α] [DecidableLE α]

/-- **A solve that succeeds satisfies every equation**, if all but the differences of two parameters
are varied. -/
theorem satisfied_of_varied {rough : Bool} {report : Report} (ready : p.Ready s)
    (varied : ∀ e ∈ p.equations.toList, e.expr.paramDifference? = none → e.expr.Varied)
    (solved : p.solve rough s = (.ok report, q, t)) :
    ∀ e ∈ p.equations.toList, e.Satisfied (p.settings.tolerance rough) t := by
  refine satisfied_of_last_stage solved fun groups equations u n v merged alones => ?_
  have first := stage_resetScratch ready (p.settings.tolerance rough) merged
  have same := (Problem.merge_frame merged).equations
  have free : ∀ e ∈ equations.toList, e.tag = 0 → e.expr.Varied := by
    intro e he untaken
    obtain ⟨e₀, he₀, eq⟩ := EquationList.exists_of_untagged same.symm he
    rw [← Equation.expr_of_untagged eq]
    refine varied e₀ he₀ ?_
    rw [Equation.expr_of_untagged eq]
    exact first.not_difference he (by rw [untaken]; decide)
  unfold Problem.solveAlones at alones
  rw [solveAlonesFrom_varied (p := { p with equations }) first.ready free] at alones
  simp only [Prod.mk.injEq] at alones
  obtain ⟨_, rfl, rfl⟩ := alones
  exact ⟨1, first⟩

end Solve

end SketchSolver
