import SketchSolver.Proofs.Problem.Phases
import SketchSolver.Space.Solving

/-!
# What solving a space may change

Whether it succeeds or fails, a solve of a space changes nothing but the degrees of freedom,
the tags of the equations, and values and scratch in the store (`solve_frame`). The ids in
particular stay, so all look-ups by id find the same parameters after it.

This is a frame and says nothing about the outcome. It is what everybody else needs to know
of a solve: the constraints, the list of parameters and the settings are as they were, the
problem has the same equations up to their tags, and the parameters it may write are the
same ones. It holds of a failed solve too, in which the values were written twice, once by
the problem and once by rolling back.

`Solved` is the relation in question, and it is an order: a run of solves, with assignments
of values in between (`Solved.setValue`), is framed like a single one. Dragging is such a
run.

Degrees of freedom are part of a report, so they change with a solve that succeeded and stay
as they were after one that failed (`freedom_of_failed_solve`).
-/

namespace SketchSolver.Space

variable {α : Type} [Zero α]

/-- `sp'` and `sk'` came from `sp` and `sk` by solving: the problem is the same but for tags, and ids
have not changed. -/
structure Solved (sp : Space α) (sk : Sketch α) (sp' : Space α) (sk' : Sketch α) : Prop where
  space : sp' = { sp with problem := sp'.problem, freedom := sp'.freedom }
  sketch : sk' = { sk with store := sk'.store }
  settings : sp'.problem.settings = sp.problem.settings
  params : sp'.problem.params = sp.problem.params
  dragged : sp'.problem.dragged = sp.problem.dragged
  equations : sp'.problem.equations.toList.map (·.untagged) =
    sp.problem.equations.toList.map (·.untagged)
  ids : ∀ h, sk'.store.id h = sk.store.id h
  symbols : ∀ h, (sk'.store.get h).symbol = (sk.store.get h).symbol

namespace Solved

variable {sp sp' sp'' : Space α} {sk sk' sk'' : Sketch α}

theorem refl (sp : Space α) (sk : Sketch α) : Solved sp sk sp sk :=
  ⟨rfl, rfl, rfl, rfl, rfl, rfl, fun _ => rfl, fun _ => rfl⟩

theorem trans (h₁ : Solved sp sk sp' sk') (h₂ : Solved sp' sk' sp'' sk'') :
    Solved sp sk sp'' sk'' :=
  ⟨by rw [h₂.space, h₁.space], by rw [h₂.sketch, h₁.sketch], h₂.settings.trans h₁.settings,
    h₂.params.trans h₁.params, h₂.dragged.trans h₁.dragged, h₂.equations.trans h₁.equations,
    fun h => (h₂.ids h).trans (h₁.ids h), fun h => (h₂.symbols h).trans (h₁.symbols h)⟩

/-- Assigning a value changes no more than a solve may. -/
theorem setValue (sp : Space α) (sk : Sketch α) (h : Handle) (v : α) :
    Solved sp sk sp { sk with store := sk.store.setValue h v } :=
  have within := Store.Within.setValue (List.mem_singleton_self h) sk.store v
  ⟨rfl, rfl, rfl, rfl, rfl, rfl, within.id, within.symbol⟩

end Solved

/-- Writing back one entry changes one value, that of a listed parameter. -/
theorem restoreOne_within (params : ParamList) (s : Store α) (saved : Int × α) :
    Store.Within params.toList s (restoreOne params s saved) := by
  unfold restoreOne
  split
  next p found => exact .setValue (ParamList.byId?_mem found) s _
  next => exact .refl _ s

/-- Rolling back changes values of listed parameters only. -/
theorem rollback_within (sp : Space α) (saved : List (Int × α)) (s : Store α) :
    Store.Within sp.params.toList s (sp.rollback saved s) :=
  .foldl (fun x _ s => restoreOne_within sp.params s x) s

section Solve

variable [One α] [Add α] [Sub α] [Mul α] [Div α] [Neg α] [LT α] [LE α] [BEq α]
variable [DecidableLT α] [DecidableLE α] [Elementary α]
variable {sp sp' : Space α} {sk sk' : Sketch α} {rough : Bool}

/-- A solve stays within its frame, with a report or with an error. -/
theorem solve_frame (sp : Space α) (sk : Sketch α) (rough : Bool) :
    Solved sp sk (sp.solve sk rough).2.1 (sp.solve sk rough).2.2 := by
  have frame := Problem.solve_frame sp.problem rough sk.store
  unfold solve
  simp only
  split
  next solved =>
    rw [solved] at frame
    exact ⟨rfl, rfl, frame.settings, frame.params, frame.dragged, frame.equations, frame.store.id,
      frame.store.symbol⟩
  next problem store solved =>
    rw [solved] at frame
    have back := rollback_within { sp with problem } (sp.snapshot sk.store) store
    exact ⟨rfl, rfl, frame.settings, frame.params, frame.dragged, frame.equations,
      fun h => (back.id h).trans (frame.store.id h),
      fun h => (back.symbol h).trans (frame.store.symbol h)⟩

/-- A solve that fails leaves the degrees of freedom from before. -/
theorem freedom_of_failed_solve {e : SolveFailure α}
    (failed : sp.solve sk rough = (.error e, sp', sk')) : sp'.freedom = sp.freedom := by
  unfold solve at failed
  simp only at failed
  split at failed
  next => simp at failed
  next =>
    simp only [Prod.mk.injEq] at failed
    rw [← failed.2.1]

end Solve

end SketchSolver.Space
