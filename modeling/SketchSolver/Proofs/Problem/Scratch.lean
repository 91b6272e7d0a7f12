import SketchSolver.Proofs.Problem.Phases

/-!
# A solve does not read scratch

Before anything else a solve resets the scratch of the listed parameters and the tags of the
equations. So stores that hold the same ids and values under the listed parameters cannot be
told apart (`solve_congr`): the outcome is the same, and so is all that is left under these
parameters.

The phases are compared one by one, each from stores that agree on the listed parameters
(`Store.Agree`). After resetting the stores do agree, scratch included, and from then on the
comparison is a congruence: a phase that reads and writes under listed handles alone gives
the same result on both, and leaves them in agreement. What it reads elsewhere would be
another matter, and so each lemma needs `Ready`, which says that whatever an equation
mentions is listed.

Two solves are thus comparable across whatever happened between them to parameters of other
spaces, and whatever an earlier solve left behind. That is used where a space is prepared
anew although it need not be, where a constraint was tried and taken out again, and where
values were put back after a failure.

The results are equalities of outcomes, over any scalars. They hold of doubles, with all their
rounding, because both sides compute with the same values in the same order.
-/

namespace SketchSolver

variable {α : Type} [Zero α]

namespace Store.Agree

variable {hs : List Handle} {s t : Store α}

/-- The same steps keep stores alike. -/
theorem foldl {γ : Type} {f : Store α → γ → Store α} {xs : List γ}
    (each : ∀ x ∈ xs, ∀ s t, Agree hs s t → Agree hs (f s x) (f t x)) (h : Agree hs s t) :
    Agree hs (xs.foldl f s) (xs.foldl f t) := by
  induction xs generalizing s t with
  | nil => exact h
  | cons x xs ih =>
    rw [List.foldl_cons, List.foldl_cons]
    exact ih (fun y hy => each y (List.mem_cons_of_mem x hy)) (each x List.mem_cons_self s t h)

end Store.Agree

namespace EqualGroup

variable {params : ParamList} {equations : EquationList α} {s t : Store α}

/-- Which parameters an equation binds is the same in stores that agree. -/
theorem bound?_congr (agree : Store.Agree params.toList s t) {e : Equation α}
    (listed : ∀ h ∈ e.expr.params, h ∈ params.toList) : e.bound? t = e.bound? s := by
  unfold Equation.bound?
  cases difference : e.expr.paramDifference? with
  | none => rfl
  | some pair =>
    obtain ⟨a, b⟩ := pair
    obtain ⟨mema, memb⟩ := Expr.mem_params_of_difference difference
    simp only [Option.map_some]
    rw [agree.id (listed a mema), agree.id (listed b memb)]

/-- Eliminating a parameter keeps stores in agreement. -/
theorem eliminate_congr (agree : Store.Agree params.toList s t) (r id : Int) :
    Store.Agree params.toList (eliminate params r s id) (eliminate params r t id) := by
  unfold eliminate
  split
  next => exact agree
  next =>
    rw [ParamList.byId?_congr agree]
    cases params.byId? s id with
    | none => exact agree
    | some p => exact (agree.modify p _).modify p _

/-- Merging cannot tell apart stores that agree on the listed parameters. -/
theorem merge_congr (agree : Store.Agree params.toList s t)
    (listed : ∀ e ∈ equations.toList, ∀ h ∈ e.expr.params, h ∈ params.toList)
    (dragged : List Int) :
    (merge t params equations dragged).1 = (merge s params equations dragged).1 ∧
      (merge t params equations dragged).2.1 = (merge s params equations dragged).2.1 ∧
      Store.Agree params.toList (merge s params equations dragged).2.2
        (merge t params equations dragged).2.2 := by
  unfold merge
  rw [collect_congr [] fun e he => bound?_congr agree (listed e he)]
  cases collect s [] equations.toList with
  | mk result es =>
    cases result with
    | error e => exact ⟨rfl, rfl, agree⟩
    | ok pairs =>
      refine ⟨rfl, rfl, agree.foldl fun g _ s t agree => ?_⟩
      exact agree.foldl fun id _ s t agree => eliminate_congr agree _ id

end EqualGroup

namespace Problem

variable {p : Problem α} {s t : Store α} {h : Handle}

/-- Whether an equation can be solved alone depends on what it refers to, and on tags. -/
theorem loneUnknown?_congr {e : Equation α}
    (same : ∀ h ∈ e.expr.params, p.params.has t h = p.params.has s h ∧ t.id h = s.id h)
    (byId : ∀ id, p.params.byId? t id = p.params.byId? s id)
    (tags : ∀ h ∈ p.params.toList, t.tag h = s.tag h) :
    p.loneUnknown? t e = p.loneUnknown? s e := by
  unfold loneUnknown?
  rw [Expr.referenced_congr same]
  split
  next => rfl
  next =>
    cases e.expr.referenced s p.params with
    | none => rfl
    | multiple => rfl
    | single id =>
      simp only
      rw [byId]
      cases found : p.params.byId? s id with
      | none => rfl
      | some h => rw [Option.filter_some, Option.filter_some, tags h (ParamList.byId?_mem found)]

theorem writeBackOne_congr (agree : Store.Agree p.params.toList s t)
    (mem : h ∈ p.params.toList) :
    Store.Agree p.params.toList (writeBackOne p.params s h) (writeBackOne p.params t h) := by
  unfold writeBackOne
  rw [agree h mem, ParamList.byId?_congr agree]
  split
  next =>
    cases found : p.params.byId? s (s.get h).representative with
    | none => exact agree
    | some r =>
      simp only
      rw [agree.value (ParamList.byId?_mem found)]
      exact (agree.modify h _).modify h _
  next => exact agree

theorem writeBack_congr (agree : Store.Agree p.params.toList s t) :
    Store.Agree p.params.toList (writeBack p.params s) (writeBack p.params t) :=
  agree.foldl fun _ mem _ _ agree => writeBackOne_congr agree mem

section Solve

variable [One α] [Add α] [Sub α] [Mul α] [Div α] [Neg α] [LT α] [BEq α]
variable [DecidableLT α] [Elementary α]

/-- A group has the same outcome in stores that agree, and leaves them in agreement. -/
theorem solveAlone_congr (agree : Store.Agree p.params.toList s t) (ready : p.Ready s)
    (tolerance : α) (group : Nat) (h : Handle) :
    (p.solveAlone tolerance group h t).1 = (p.solveAlone tolerance group h s).1 ∧
      Store.Agree p.params.toList (p.solveAlone tolerance group h s).2
        (p.solveAlone tolerance group h t).2 := by
  unfold solveAlone
  rw [Jacobian.write_congr agree ready.listed]
  cases written : Jacobian.write group s p.params p.equations p.settings.maxUnknowns with
  | error e => exact ⟨rfl, agree⟩
  | ok j =>
    have reads := Jacobian.write_reads written ready.sorted ready.listed
    obtain ⟨same, agree'⟩ := Newton.run_congr p.settings p.dragged tolerance reads agree
    obtain ⟨result, s', t', ranS, ranT, agree'⟩ := agree'.outcomes same
    simp only
    rw [ranS, ranT]
    cases result with
    | error e => exact ⟨rfl, agree'⟩
    | ok n => exact ⟨rfl, agree'.modify h _⟩

theorem solveAlonesFrom_congr (tolerance : α) : ∀ (ids : List Int) (group : Nat) {p : Problem α}
    {s t : Store α}, Store.Agree p.params.toList s t → p.Ready s →
    (solveAlonesFrom tolerance group ids p t).1 = (solveAlonesFrom tolerance group ids p s).1 ∧
      (solveAlonesFrom tolerance group ids p t).2.1 =
        (solveAlonesFrom tolerance group ids p s).2.1 ∧
      Store.Agree p.params.toList (solveAlonesFrom tolerance group ids p s).2.2
        (solveAlonesFrom tolerance group ids p t).2.2
  | [], group, p, s, t, agree, _ => ⟨rfl, rfl, agree⟩
  | id :: ids, group, p, s, t, agree, ready => by
    have lone : (p.equations.byId? id).bind (p.loneUnknown? t) =
        (p.equations.byId? id).bind (p.loneUnknown? s) := by
      cases found : p.equations.byId? id with
      | none => rfl
      | some e =>
        have listed := ready.listed e (IdList.find?_some found).1
        exact loneUnknown?_congr
          (fun h hh => ⟨ParamList.has_congr agree (listed h hh), agree.id (listed h hh)⟩)
          (ParamList.byId?_congr agree) fun h mem => agree.tag mem
    unfold solveAlonesFrom
    rw [lone]
    cases unknown : (p.equations.byId? id).bind (p.loneUnknown? s) with
    | none => exact solveAlonesFrom_congr tolerance ids group agree ready
    | some h =>
      simp only
      -- both runs take the same unknown, which is listed, so the marks on it agree as well
      obtain ⟨e, _, lone⟩ := Option.bind_eq_some_iff.mp unknown
      have mem := loneUnknown?_mem lone
      have tagged := Frame.of_equations (EquationList.untagged_setTag p.equations id group)
        (Store.Within.setTag mem s group)
      have agree₁ : Store.Agree p.params.toList (s.setTag h group) (t.setTag h group) :=
        agree.modify h _
      obtain ⟨same, agree'⟩ := solveAlone_congr
        (p := { p with equations := p.equations.setTag id group }) agree₁ (tagged.ready ready)
        tolerance group h
      have within := solveAlone_within
        (p := { p with equations := p.equations.setTag id group }) mem tolerance group
        (s.setTag h group)
      obtain ⟨result, s', t', solvedS, solvedT, agree'⟩ := agree'.outcomes same
      rw [solvedS] at within
      rw [solvedS, solvedT]
      cases result with
      | error e => exact ⟨rfl, rfl, agree'⟩
      | ok _ =>
        have ready' := (Frame.of_store within).ready (tagged.ready ready)
        exact solveAlonesFrom_congr tolerance ids (group + 1) agree' ready'

theorem solveAlones_congr (agree : Store.Agree p.params.toList s t) (ready : p.Ready s)
    (tolerance : α) :
    (p.solveAlones tolerance t).1 = (p.solveAlones tolerance s).1 ∧
      (p.solveAlones tolerance t).2.1 = (p.solveAlones tolerance s).2.1 ∧
      Store.Agree p.params.toList (p.solveAlones tolerance s).2.2
        (p.solveAlones tolerance t).2.2 := by
  obtain ⟨result, problem, agree'⟩ := solveAlonesFrom_congr tolerance
    (p.equations.toList.map (·.id)) 1 agree ready
  obtain ⟨result, q, s', t', chainS, chainT, agree'⟩ := agree'.outcomes₃ result problem
  unfold solveAlones
  rw [chainS, chainT]
  cases result with
  | error e => exact ⟨rfl, rfl, agree'⟩
  | ok group => exact ⟨rfl, rfl, agree'⟩

variable [LE α] [DecidableLE α]

/-- The main system has the same outcome. -/
theorem solveTogether_congr (agree : Store.Agree p.params.toList s t) (ready : p.Ready s)
    (tolerance : α) :
    (p.solveTogether tolerance t).1 = (p.solveTogether tolerance s).1 ∧
      Store.Agree p.params.toList (p.solveTogether tolerance s).2
        (p.solveTogether tolerance t).2 := by
  unfold solveTogether
  rw [Jacobian.write_congr agree ready.listed]
  cases written : Jacobian.write 0 s p.params p.equations p.settings.maxUnknowns with
  | error e => exact ⟨rfl, agree⟩
  | ok j =>
    have reads := Jacobian.write_reads written ready.sorted ready.listed
    obtain ⟨same, agree'⟩ := Newton.run_congr p.settings p.dragged tolerance reads agree
    obtain ⟨result, s', t', ranS, ranT, agree'⟩ := agree'.outcomes same
    simp only
    rw [Jacobian.matrix_congr reads fun h mem => agree.value mem]
    split
    next => exact ⟨rfl, agree⟩
    next =>
      rw [ranS, ranT]
      cases result with
      | error e => exact ⟨rfl, agree'⟩
      | ok n => exact ⟨rfl, agree'⟩

theorem solveMerged_congr (agree : Store.Agree p.params.toList s t) (ready : p.Ready s)
    (tolerance : α) (eliminated : Nat) :
    (p.solveMerged tolerance eliminated t).1 = (p.solveMerged tolerance eliminated s).1 ∧
      (p.solveMerged tolerance eliminated t).2.1 =
        (p.solveMerged tolerance eliminated s).2.1 ∧
      Store.Agree p.params.toList (p.solveMerged tolerance eliminated s).2.2
        (p.solveMerged tolerance eliminated t).2.2 := by
  obtain ⟨result, problem, agree'⟩ := solveAlones_congr agree ready tolerance
  have frame := solveAlones_frame p tolerance s
  obtain ⟨result, q, s', t', alonesS, alonesT, agree'⟩ := agree'.outcomes₃ result problem
  rw [alonesS] at frame
  unfold solveMerged
  rw [alonesS, alonesT]
  cases result with
  | error e => exact ⟨rfl, rfl, agree'⟩
  | ok n =>
    rw [← frame.params] at agree' ⊢
    obtain ⟨same, agree₂⟩ := solveTogether_congr agree' (frame.ready ready) tolerance
    obtain ⟨result, s₂, t₂, togetherS, togetherT, agree₂⟩ := agree₂.outcomes same
    simp only
    rw [togetherS, togetherT]
    cases result with
    | error e => exact ⟨rfl, rfl, agree₂⟩
    | ok solved => exact ⟨rfl, rfl, writeBack_congr agree₂⟩

/-- A solve starts by clearing tags, so it does not read those of earlier solves. -/
theorem solve_of_untagged {q : Problem α} (settings : q.settings = p.settings)
    (params : q.params = p.params) (dragged : q.dragged = p.dragged)
    (equations : q.equations.toList.map (·.untagged) = p.equations.toList.map (·.untagged))
    (rough : Bool) (s : Store α) : q.solve rough s = p.solve rough s := by
  have clear := EquationList.clearTags_of_untagged equations
  have reset : q.resetScratch s = p.resetScratch s := by
    obtain ⟨_, _, _, _⟩ := p
    obtain ⟨_, _, _, _⟩ := q
    subst settings params dragged
    unfold resetScratch
    simp only at clear ⊢
    rw [clear]
  unfold solve
  rw [settings, reset]

/-- **A solve cannot tell apart stores with the same ids, values and symbols under the listed
parameters.** -/
theorem solve_congr (same : ∀ h ∈ p.params.toList, t.id h = s.id h ∧ t.value h = s.value h ∧
      (t.get h).symbol = (s.get h).symbol) (ready : p.Ready s) (rough : Bool) :
    (p.solve rough t).1 = (p.solve rough s).1 ∧
      (p.solve rough t).2.1 = (p.solve rough s).2.1 ∧
      Store.Agree p.params.toList (p.solve rough s).2.2 (p.solve rough t).2.2 := by
  -- the reset overwrites all scratch, and what it leaves alone is the same in both stores
  have agree : Store.Agree p.params.toList (resetParams p.params s) (resetParams p.params t) := by
    intro h mem
    obtain ⟨id, value, symbol⟩ := same h mem
    unfold Store.id at id
    unfold Store.value at value
    rw [get_resetParams mem, get_resetParams mem]
    simp only [id, value, symbol]
  have reset := resetScratch_frame p s
  have ready' := reset.ready ready
  obtain ⟨result, equations, agree'⟩ := EqualGroup.merge_congr agree ready'.listed p.dragged
  have untagged := EqualGroup.merge_untagged (p.resetScratch s).2 p.params
    (p.resetScratch s).1.equations p.dragged
  have within := EqualGroup.merge_within (p.resetScratch s).2 p.params
    (p.resetScratch s).1.equations p.dragged
  obtain ⟨result, merged, s', t', mergedS, mergedT, agree'⟩ := agree'.outcomes₃ result equations
  have mergedS' : EqualGroup.merge (p.resetScratch s).2 p.params (p.resetScratch s).1.equations
      p.dragged = (result, merged, s') := mergedS
  rw [mergedS'] at untagged within
  unfold solve resetScratch
  simp only
  unfold resetScratch at mergedS mergedT
  rw [mergedS, mergedT]
  cases result with
  | error e => exact ⟨rfl, rfl, agree'⟩
  | ok groups =>
    have frame := reset.trans (.of_equations untagged within)
    exact solveMerged_congr (p := { p with equations := merged }) agree' (frame.ready ready) _ _

end Solve

end Problem

end SketchSolver
