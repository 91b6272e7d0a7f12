import SketchSolver.Problem.Solve
import SketchSolver.Proofs.Equality.Merging
import SketchSolver.Proofs.Newton.RunFrame
import SketchSolver.Proofs.Problem.Loading

/-!
# What a solve may change

Every phase of a solve keeps the settings, the list of parameters, the dragged ids and the
equations but for their tags, and writes to listed parameters alone (`Frame`). That holds
whether the phase succeeds or fails, so it holds of the whole solve (`solve_frame`).

The second half of the frame is about the store. `Store.Within` allows a phase to write
values, tags, representatives and whether something is settled, under the handles that are
given, and forbids it to write ids. Every look-up in a list goes by ids, so it gives the same
answer in all states of a solve, and `Ready` is kept from the first phase to the last
(`Frame.ready`). The modules that follow one phase after the other do not prove this again.

Frames compose (`Frame.trans`), and the equations are compared without their tags
(`Equation.untagged`), since tagging is what phases do to them. Each lemma here is about one
definition and follows its branches: a phase that gives up returns the store as far as it got,
and that is within the frame as well.

Besides the frame there are two facts about where a solve starts from. After resetting, no
listed parameter is settled, eliminated or taken (`fresh_resetScratch`), and an equation is
solved alone for a parameter of the list (`loneUnknown?_mem`).
-/

namespace SketchSolver.Problem

variable {α : Type} [Zero α]

/-- The problem and store `q`, `t` came from `p`, `s` by tagging equations and changing values and
scratch of listed parameters. -/
structure Frame (p : Problem α) (s : Store α) (q : Problem α) (t : Store α) : Prop where
  settings : q.settings = p.settings
  params : q.params = p.params
  dragged : q.dragged = p.dragged
  equations : q.equations.toList.map (·.untagged) = p.equations.toList.map (·.untagged)
  store : Store.Within p.params.toList s t

namespace Frame

variable {p q r : Problem α} {s t u : Store α}

/-- A phase that writes to listed parameters only. -/
theorem of_store (within : Store.Within p.params.toList s t) : Frame p s p t :=
  ⟨rfl, rfl, rfl, rfl, within⟩

/-- A phase that tags equations and writes to listed parameters. -/
theorem of_equations {equations : EquationList α}
    (same : equations.toList.map (·.untagged) = p.equations.toList.map (·.untagged))
    (within : Store.Within p.params.toList s t) : Frame p s { p with equations } t :=
  ⟨rfl, rfl, rfl, same, within⟩

theorem trans (h₁ : Frame p s q t) (h₂ : Frame q t r u) : Frame p s r u :=
  ⟨h₂.settings.trans h₁.settings, h₂.params.trans h₁.params, h₂.dragged.trans h₁.dragged,
    h₂.equations.trans h₁.equations, h₁.store.trans (h₁.params ▸ h₂.store)⟩

theorem ready (h : Frame p s q t) (ready : p.Ready s) : q.Ready t :=
  ready.congr h.params (EquationList.exprs_of_untagged h.equations) h.store.id

end Frame

variable {p : Problem α} {s : Store α} {h : Handle}

/-! ## Phases -/

/-- Resetting parameters writes to them alone. -/
theorem resetParams_within (params : ParamList) (s : Store α) :
    Store.Within params.toList s (resetParams params s) := by
  refine (ParamList.clearTags_within params s).trans (.foldl (fun h mem s => ?_) _)
  exact .modify mem s (fun _ => rfl) fun _ => rfl

/-- Resetting keeps the id, the value and the symbol of a listed parameter, and nothing else. -/
theorem get_resetParams {params : ParamList} (mem : h ∈ params.toList) (s : Store α) :
    (resetParams params s).get h =
      { s.get h with tag := 0, known := false, representative := 0 } := by
  unfold resetParams ParamList.clearTags Store.setTag
  rw [Store.get_foldl_modify (f := Param.reset) (fun _ => rfl) _ mem,
    Store.get_foldl_modify (f := ({ · with tag := 0 })) (fun _ => rfl) _ mem]
  rfl

theorem resetScratch_frame (p : Problem α) (s : Store α) :
    Frame p s (p.resetScratch s).1 (p.resetScratch s).2 := by
  refine .of_equations ?_ (resetParams_within p.params s)
  rw [EquationList.toList_clearTags, List.map_map]
  rfl

/-- A merge after the reset changes no more than a solve may. -/
theorem merge_frame {groups : List EqualGroup} {equations : EquationList α} {t : Store α}
    (merged : EqualGroup.merge (p.resetScratch s).2 p.params (p.resetScratch s).1.equations
      p.dragged = (.ok groups, equations, t)) : Frame p s { p with equations } t := by
  have same := EqualGroup.merge_untagged (p.resetScratch s).2 p.params
    (p.resetScratch s).1.equations p.dragged
  have within := EqualGroup.merge_within (p.resetScratch s).2 p.params
    (p.resetScratch s).1.equations p.dragged
  rw [merged] at same within
  exact (resetScratch_frame p s).trans (.of_equations same within)

/-- After the reset no listed parameter is taken, eliminated or settled. -/
theorem fresh_resetScratch (p : Problem α) (s : Store α) : ∀ h ∈ p.params.toList,
    (p.resetScratch s).2.tag h = 0 ∧ ((p.resetScratch s).2.get h).known = false := by
  intro h mem
  have get : (p.resetScratch s).2.get h = _ := get_resetParams mem s
  unfold Store.tag
  rw [get]
  exact ⟨rfl, rfl⟩

/-- The unknown of an equation is listed. -/
theorem loneUnknown?_mem {e : Equation α} (lone : p.loneUnknown? s e = some h) :
    h ∈ p.params.toList := by
  unfold loneUnknown? at lone
  split at lone
  next => simp at lone
  next =>
    split at lone
    next => exact ParamList.byId?_mem (Option.filter_eq_some_iff.mp lone).1
    next => simp at lone

/-- Writing back one parameter writes to it alone. -/
theorem writeBackOne_within (params : ParamList) (s : Store α) {h : Handle}
    (mem : h ∈ params.toList) : Store.Within params.toList s (writeBackOne params s h) := by
  unfold writeBackOne
  split
  next =>
    split
    next => exact (Store.Within.setValue mem s _).trans (.setKnown mem _ _)
    next => exact .refl _ s
  next => exact .refl _ s

theorem writeBack_within (params : ParamList) (s : Store α) :
    Store.Within params.toList s (writeBack params s) :=
  .foldl (fun _ mem s => writeBackOne_within params s mem) s

section Solve

variable [One α] [Add α] [Sub α] [Mul α] [Div α] [Neg α] [LT α] [BEq α]
variable [DecidableLT α] [Elementary α]

/-- A run on the parameters with one tag moves listed parameters. -/
theorem run_within {tag : Nat} {j : Jacobian α} {params : ParamList} {equations : EquationList α}
    {limit : Nat} (written : Jacobian.write tag s params equations limit = .ok j)
    (settings : Settings α) (dragged : List Int) (tolerance : α) :
    Store.Within params.toList s (Newton.run settings dragged tolerance j s).2 :=
  (Newton.run_moved settings dragged tolerance j s).within.mono fun _ mem =>
    ((Jacobian.mem_columns written).mp mem).1

/-- A group writes to listed parameters. -/
theorem solveAlone_within (mem : h ∈ p.params.toList) (tolerance : α) (group : Nat)
    (s : Store α) : Store.Within p.params.toList s (p.solveAlone tolerance group h s).2 := by
  unfold solveAlone
  split
  next => exact .refl _ s
  next j written =>
    have within := run_within written p.settings p.dragged tolerance
    split
    next ran =>
      rw [ran] at within
      exact within
    next ran =>
      rw [ran] at within
      exact within.trans (.setKnown mem _ true)

/-- A chain of groups is framed, wherever it ends. -/
theorem solveAlonesFrom_frame (tolerance : α) : ∀ (ids : List Int) (group : Nat) (p : Problem α)
    (s : Store α), Frame p s (solveAlonesFrom tolerance group ids p s).2.1
      (solveAlonesFrom tolerance group ids p s).2.2
  | [], _, p, s => .of_store (.refl _ s)
  | id :: ids, group, p, s => by
    unfold solveAlonesFrom
    split
    next => exact solveAlonesFrom_frame tolerance ids group p s
    next h lone =>
      obtain ⟨e, _, lone⟩ := Option.bind_eq_some_iff.mp lone
      have mem := loneUnknown?_mem lone
      have within := (Store.Within.setTag mem s group).trans
        (solveAlone_within (p := { p with equations := p.equations.setTag id group }) mem tolerance
          group (s.setTag h group))
      have frame := Frame.of_equations (EquationList.untagged_setTag p.equations id group) within
      simp only
      split
      next solved =>
        rw [solved] at frame
        exact frame
      next solved =>
        rw [solved] at frame
        exact frame.trans (solveAlonesFrom_frame tolerance ids (group + 1) _ _)

theorem solveAlones_frame (p : Problem α) (tolerance : α) (s : Store α) :
    Frame p s (p.solveAlones tolerance s).2.1 (p.solveAlones tolerance s).2.2 := by
  have frame := solveAlonesFrom_frame tolerance (p.equations.toList.map (·.id)) 1 p s
  unfold solveAlones
  split
  next solved =>
    rw [solved] at frame
    exact frame
  next solved =>
    rw [solved] at frame
    exact frame

variable [LE α] [DecidableLE α]

/-- The main system writes to its columns, which are listed. -/
theorem solveTogether_within (p : Problem α) (tolerance : α) (s : Store α) :
    Store.Within p.params.toList s (p.solveTogether tolerance s).2 := by
  unfold solveTogether
  split
  next => exact .refl _ s
  next j written =>
    have within := run_within written p.settings p.dragged tolerance
    simp only
    split
    next => exact .refl _ s
    next =>
      split
      next ran =>
        rw [ran] at within
        exact within
      next ran =>
        rw [ran] at within
        exact within

theorem solveMerged_frame (p : Problem α) (tolerance : α) (eliminated : Nat) (s : Store α) :
    Frame p s (p.solveMerged tolerance eliminated s).2.1
      (p.solveMerged tolerance eliminated s).2.2 := by
  have alones := solveAlones_frame p tolerance s
  unfold solveMerged
  split
  next solved =>
    rw [solved] at alones
    exact alones
  next q t solved =>
    rw [solved] at alones
    have together := solveTogether_within q tolerance t
    split
    next solved =>
      rw [solved] at together
      exact alones.trans (.of_store together)
    next solved =>
      rw [solved] at together
      exact alones.trans (.of_store (together.trans (writeBack_within q.params _)))

/-- **A solve changes tags of equations, and values and scratch of listed parameters.** -/
theorem solve_frame (p : Problem α) (rough : Bool) (s : Store α) :
    Frame p s (p.solve rough s).2.1 (p.solve rough s).2.2 := by
  have reset := resetScratch_frame p s
  have equations := EqualGroup.merge_untagged (p.resetScratch s).2 (p.resetScratch s).1.params
    (p.resetScratch s).1.equations (p.resetScratch s).1.dragged
  have within := EqualGroup.merge_within (p.resetScratch s).2 (p.resetScratch s).1.params
    (p.resetScratch s).1.equations (p.resetScratch s).1.dragged
  unfold solve
  simp only
  split
  next merged =>
    rw [merged] at equations within
    exact reset.trans (.of_equations equations within)
  next merged =>
    rw [merged] at equations within
    exact (reset.trans (.of_equations equations within)).trans (solveMerged_frame _ _ _ _)

end Solve

end SketchSolver.Problem
