import SketchSolver.Proofs.Space.Outcomes
import SketchSolver.Proofs.Space.Rollback

/-!
# Dragging without preparing again

While an entity is dragged the space is prepared for it once, and then parameters get new
values and the space is solved, again and again (`DragStep`). Preparing for the entity that
is dragged already is left out, unless it is forced. That saves time on every frame, but it
is right only if a forced preparation would not have changed what comes next.

All that the frames leave behind are values, tags and other scratch (`solved_run`): an
assignment writes one value, and a solve changes what `Solved` allows, whether it finds a
solution or puts the values back. No id is among that. So a preparation by force would meet
the same parameters in the same order, give them the ids that they have, and load the
equations of the same constraints (`Built.again`). It would do away with the tags and with
what is left of substitutions and reductions, and a solve does that first of all itself, so
it reads none of it (`solve_of_untagged`).

Leaving the preparation out therefore makes no difference (`solve_without_preparing`): the
solve after it has the same outcome, report or error, and the same space and the same values
are left. Nothing is assumed about the numbers, and the frames may be any, also with solves
that failed.
-/

namespace SketchSolver.Space

variable {α : Type} [Zero α] {sp sp' sp₀ sp₁ : Space α} {sk sk' sk₀ sk₁ : Sketch α}

/-- The degrees of freedom of the last solve do not matter for building. -/
theorem Built.withFreedom (built : Built sp sk sp' sk') (freedom : Nat) :
    Built { sp with freedom } sk { sp' with freedom } sk' :=
  ⟨built.numbered, built.params, built.store, built.equations, built.problem,
    by rw [built.space], built.sketch⟩

/-- **What was built and then only solved is built again alike**, with the ids that it has. -/
theorem Built.again {dragged : Option EntityId} {drawn : List Handle}
    (built : Built (sp₀.arranged dragged drawn) sk₀ sp₁ sk₁) (solved : Solved sp₁ sk₁ sp sk)
    (fits : ∀ c ∈ sp₀.constraints, c.Fits) (within : ∀ h ∈ drawn, h ∈ sk₀.params) :
    ∃ sk', (sp.arranged dragged drawn).build sk =
        (.ok (), { sp with problem := sp₁.problem }, sk') ∧
      ∀ h, sk'.store.get h = sk.store.get h := by
  have space : sp = { sp₀.arranged dragged drawn with
      params := sp₁.params, problem := sp.problem, freedom := sp.freedom } := by
    have := solved.space
    rw [built.space] at this
    exact this
  have sketch : sk = { sk₀ with store := sk.store } := by
    have := solved.sketch
    rw [built.sketch] at this
    exact this
  -- sorting what is sorted changes nothing
  have arranged : sp.arranged dragged drawn = { sp₀.arranged dragged drawn with
      freedom := sp.freedom, problem := sp.problem } := by
    have constraints : sortConstraints sp.constraints = sortConstraints sp₀.constraints := by
      rw [space]
      exact sortConstraints_eq_self (sorted_sortConstraints sp₀.constraints)
    unfold Space.arranged Space.forgetParams
    rw [constraints, space]
    rfl
  have fits' : ∀ c ∈ (sp₀.arranged dragged drawn).valid, c.Fits := fits_arranged fits
  have valid : (sp.arranged dragged drawn).valid = (sp₀.arranged dragged drawn).valid := by
    rw [arranged]
    rfl
  obtain ⟨sp', sk', build, again⟩ := build_ok sk (valid ▸ fits')
  have params : sk.params = sk₀.params := by
    rw [sketch]
    rfl
  obtain ⟨rfl, ids⟩ := (built.withFreedom sp.freedom).unique again (by rw [arranged])
    (solved.settings.trans built.settings) params fits'
    fun h mem => List.mem_append_left _ (within h mem)
  refine ⟨sk', ?_, fun h => ?_⟩
  · rw [build, solved.space]
  · have id : sk'.store.id h = sk.store.id h := by
      by_cases numbered : h ∈ (sp₀.arranged dragged drawn).met sk₀
      · exact (ids h numbered).trans (solved.ids h).symm
      · refine again.store.id fun mem => numbered ?_
        rw [arranged] at mem
        unfold met at mem ⊢
        rw [params] at mem
        exact mem
    rw [again.store.get h, id]
    rfl

/-- Solving and assigning values leaves a covered space covered. -/
theorem Covered.of_solved (covered : Covered sp₁ sk₁.store) (solved : Solved sp₁ sk₁ sp sk) :
    Covered sp sk.store := by
  have params : sp.params = sp₁.params := by rw [solved.space]
  have constraints : sp.constraints = sp₁.constraints := by rw [solved.space]
  have valid : sp.valid = sp₁.valid := by
    rw [solved.space]
    rfl
  refine ⟨?_, fun c hc h hh => ?_, fun h mem => ?_⟩
  · rw [params]
    exact covered.numbered.congr fun h _ => solved.ids h
  · rw [params]
    rw [constraints] at hc
    exact covered.hosted c hc h hh
  · rw [valid]
    rw [solved.params] at mem
    exact covered.needed h mem

/-! ## While an entity is dragged -/

/-- What happens to a prepared space between two frames. -/
inductive DragStep (α : Type) where
  | assign (h : Handle) (v : α)
  | solve (rough : Bool)

section Solve

variable [One α] [Add α] [Sub α] [Mul α] [Div α] [Neg α] [LT α] [LE α] [BEq α]
variable [DecidableLT α] [DecidableLE α] [Elementary α]

/-- A parameter gets a new value, or the space is solved, with whatever outcome. -/
def DragStep.apply : DragStep α → Space α × Sketch α → Space α × Sketch α
  | .assign h v, (sp, sk) => (sp, { sk with store := sk.store.setValue h v })
  | .solve rough, (sp, sk) => (sp.solveNow sk rough).2

/-- One step after the other. -/
def DragStep.run (steps : List (DragStep α)) (start : Space α × Sketch α) :
    Space α × Sketch α :=
  steps.foldl (fun state step => step.apply state) start

theorem DragStep.solved_apply (step : DragStep α) (sp : Space α) (sk : Sketch α) :
    Solved sp sk (step.apply (sp, sk)).1 (step.apply (sp, sk)).2 := by
  cases step with
  | assign h v => exact .setValue sp sk h v
  | solve rough => exact solveNow_solved sp sk rough

/-- Any number of steps leaves what a solve leaves. -/
theorem DragStep.solved_run (steps : List (DragStep α)) : ∀ (sp : Space α) (sk : Sketch α),
    Solved sp sk (run steps (sp, sk)).1 (run steps (sp, sk)).2 := by
  induction steps with
  | nil => exact Solved.refl
  | cons step steps ih =>
    intro sp sk
    exact (step.solved_apply sp sk).trans (ih _ _)

/-- Solving a space does not read the tags that an earlier solve has left. -/
theorem solve_of_untagged {problem : Problem α} (settings : problem.settings = sp.problem.settings)
    (params : problem.params = sp.problem.params) (dragged : problem.dragged = sp.problem.dragged)
    (equations : problem.equations.toList.map (·.untagged) =
      sp.problem.equations.toList.map (·.untagged)) (sk : Sketch α) (rough : Bool) :
    ({ sp with problem } : Space α).solve sk rough = sp.solve sk rough := by
  unfold solve
  simp only
  rw [Problem.solve_of_untagged settings params dragged equations]
  rfl

/-- **Preparing again by force for the entity that is dragged makes no difference.** Where nothing but
solves and assignments of values came after a preparation that was not skipped, the next one succeeds
either way, and a solve after it has the same outcome and leaves the same space and the same values. -/
theorem solve_without_preparing {id : EntityId} {force : Bool} (fits : ∀ c ∈ sp₀.constraints, c.Fits)
    (due : sp₀.skips (some id) force = false)
    (prepared : sp₀.prepare sk₀ (some id) force = (.ok (), sp₁, sk₁)) (steps : List (DragStep α))
    (ran : DragStep.run steps (sp₁, sk₁) = (sp, sk)) (rough : Bool) :
    sp.prepare sk (some id) false = (.ok (), sp, sk) ∧
      ∃ sp' sk', sp.prepare sk (some id) true = (.ok (), sp', sk') ∧
        (sp'.solveNow sk' rough).1 = (sp.solveNow sk rough).1 ∧
        (sp'.solveNow sk' rough).2.1 = (sp.solveNow sk rough).2.1 ∧
        ∀ h, (sp'.solveNow sk' rough).2.2.store.value h =
          (sp.solveNow sk rough).2.2.store.value h := by
  have solved : Solved sp₁ sk₁ sp sk := by
    have := DragStep.solved_run steps sp₁ sk₁
    rw [ran] at this
    exact this
  rw [prepare_some, if_neg (by rw [due]; simp)] at prepared
  cases found : sk₀.entity? id with
  | none =>
    rw [found] at prepared
    simp at prepared
  | some e =>
    rw [found] at prepared
    have within : ∀ h ∈ e.shape.params, h ∈ sk₀.params := fun h mem =>
      List.mem_flatMap.mpr ⟨e, List.mem_of_find?_eq_some found, mem⟩
    have fits' : ∀ c ∈ (sp₀.arranged (some id) e.shape.params).valid, c.Fits :=
      fits_arranged fits
    obtain ⟨_, _, build, built⟩ := build_ok sk₀ fits'
    simp only [build, Prod.mk.injEq, true_and] at prepared
    obtain ⟨rfl, rfl⟩ := prepared
    -- what a preparation by force would leave
    obtain ⟨sk', rebuild, same⟩ := built.again solved fits within
    have entity : sk.entity? id = some e := by
      rw [solved.sketch, built.sketch]
      exact found
    have dragged : sp.dragged = some id := by
      rw [solved.space, built.space]
      rfl
    have forced : sp.prepare sk (some id) true =
        (sp.arranged (some id) e.shape.params).build sk := by
      rw [prepare_some, if_neg (by simp [skips]), entity]
    refine ⟨?_, _, sk', forced.trans rebuild, ?_⟩
    · rw [prepare_some, if_pos (by simp [skips, dragged])]
    · have ready := (built.ready fits').congr solved.params
        (EquationList.exprs_of_untagged solved.equations) solved.ids
      have covered := (built.covered fits').of_solved solved
      have ids : ∀ h, sk'.store.id h = sk.store.id h := fun h => congrArg Param.id (same h)
      obtain ⟨result, space, values⟩ := solve_congr ready covered (covered.congr ids)
        (fun h _ => ⟨ids h, congrArg Param.symbol (same h)⟩)
        (fun h => congrArg Param.value (same h)) rough
      unfold solveNow
      simp only
      rw [solve_of_untagged solved.settings.symm solved.params.symm solved.dragged.symm
        solved.equations.symm, result]
      exact ⟨rfl, space, values⟩

end Solve

/-- A space that asks that the segment is horizontal. -/
def levelSpace : Space Float :=
  { Space.create 0 Settings.standard with
    constraints := [
      { id := ⟨1⟩, kind := .horizontal, entities := [⟨3⟩], params := [⟨0⟩, ⟨1⟩, ⟨2⟩, ⟨3⟩] }] }

/-- Its second end is pulled, roughly solved, pulled again and solved. -/
def twoPulls : List (DragStep Float) :=
  [.assign ⟨3⟩ 2, .solve true, .assign ⟨2⟩ 4, .assign ⟨3⟩ 5, .solve false]

/-- An end is pulled twice, with a rough solve between; the second preparation may be left out. -/
theorem solve_without_preparing_twoPulls : ∃ sp₁ sk₁ sp sk sp' sk',
    levelSpace.prepare oneSegment (some ⟨2⟩) false = (.ok (), sp₁, sk₁) ∧
    DragStep.run twoPulls (sp₁, sk₁) = (sp, sk) ∧
    sp.prepare sk (some ⟨2⟩) false = (.ok (), sp, sk) ∧
    sp.prepare sk (some ⟨2⟩) true = (.ok (), sp', sk') ∧
    (sp'.solveNow sk' true).1 = (sp.solveNow sk true).1 ∧
    (sp'.solveNow sk' true).2.1 = (sp.solveNow sk true).2.1 ∧
    ∀ h, (sp'.solveNow sk' true).2.2.store.value h =
      (sp.solveNow sk true).2.2.store.value h := by
  have fits : ∀ c ∈ levelSpace.constraints, c.Fits := by
    unfold Constraint.Fits
    decide
  have due : levelSpace.skips (some ⟨2⟩) false = false := by decide
  have found : (oneSegment.entity? ⟨2⟩).isSome = true := by decide +kernel
  obtain ⟨e, found⟩ := Option.isSome_iff_exists.mp found
  obtain ⟨sp₁, sk₁, build, _⟩ := build_ok oneSegment
    (show ∀ c ∈ (levelSpace.arranged (some ⟨2⟩) e.shape.params).valid, c.Fits from
      fits_arranged fits)
  have prepared : levelSpace.prepare oneSegment (some ⟨2⟩) false = (.ok (), sp₁, sk₁) := by
    rw [prepare_some, if_neg (by rw [due]; simp), found]
    exact build
  obtain ⟨skipped, sp', sk', forced, same⟩ :=
    solve_without_preparing fits due prepared twoPulls rfl true
  exact ⟨sp₁, sk₁, _, _, sp', sk', prepared, rfl, skipped, forced, same⟩

end SketchSolver.Space
