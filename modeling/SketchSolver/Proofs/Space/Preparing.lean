import SketchSolver.Proofs.Space.Outcomes

/-!
# Preparing is complete

A preparation that is due cannot fail, whatever was removed from the sketch, whatever ids the
parameters had and whatever the space had loaded before (`prepare_complete`). What it leaves
depends on none of that (`Complete`): the ids are positions in the order in which the
parameters are met, the equations are those that the constraints demand, and the problem
lists the parameters that these mention.

Due means that the space was not prepared for this very entity before, or that preparing is
forced. The entity, if there is one, has to be on the sketch; its absence is the one error
that is left, since the constraints of a sketch fit their kinds.

`Complete` speaks about the result in its own terms and not through the functions that made
it. Constraints are sorted by the codes of their kinds, and sorting is stable; parameters
are those of the sketch first, in the order in which its entities were entered, and then
those that only constraints have, because their entity was taken off; a parameter that is
shared is listed once. The ids of the equations count from one as well. Of the sketch
nothing but ids has changed.

The example at the end has all the difficulties at once: a segment that lost its first end,
ids that are taken twice, constraints out of order, one that takes no part and one whose
entity is gone.
-/

namespace SketchSolver.Space

variable {α : Type} [Zero α] {sp sp' : Space α} {sk sk' : Sketch α} {dragged : Option EntityId}
variable {drawn : List Handle} {force : Bool}

/-- What a preparation leaves that is due for an entity with the parameters `drawn`. -/
structure Complete (sp : Space α) (sk : Sketch α) (drawn : List Handle) (sp' : Space α)
    (sk' : Sketch α) : Prop where
  /-- The constraints are sorted by the codes of their kinds. -/
  sorted : sp'.constraints.Pairwise fun c d => c.kind.code ≤ d.kind.code
  /-- Those of one kind keep their order. -/
  stable : ∀ code, (sp'.constraints.filter fun c => c.kind.code = code) =
    sp.constraints.filter fun c => c.kind.code = code
  conflicting : sp'.conflicting = sp.conflicting
  /-- The parameters of the sketch and then of the constraints are listed once each, as they are
  met first. -/
  params : sp'.params.toList = (sk.params ++ sp'.constraints.flatMap (·.params)).eraseDups
  /-- Their ids are 1, 2, … in this order. -/
  numbered : Numbered sp'.params sk'.store
  /-- The equations are those of the constraints that take part, one constraint after the other,
  under the ids 1, 2, … -/
  equations : ∃ demanded,
    ((sp'.constraints.filter fun c => c.id ∉ sp.conflicting).mapM Constraint.residuals :
      Except (Failure α) _) = .ok demanded ∧
    sp'.problem.equations = .ofExprs demanded.flatten
  /-- The problem lists what the equations mention, and nothing else. -/
  mentioned : ∀ h, h ∈ sp'.problem.params.toList ↔ h ∈ Problem.mentioned sp'.problem.equations
  listed : IdList.Sorted sk'.store.id sp'.problem.params
  dragged : sp'.problem.dragged = drawn.map sk'.store.id
  /-- Nothing but ids of met parameters has changed in the sketch. -/
  store : Store.Renumbered (sp.met sk) sk.store sk'.store
  sketch : sk' = { sk with store := sk'.store }

/-- Building an arranged space completes it. -/
theorem Built.complete (built : Built (sp.arranged dragged drawn) sk sp' sk')
    (fits : ∀ c ∈ sp.constraints, c.Fits) : Complete sp sk drawn sp' sk' := by
  have constraints : sp'.constraints = sortConstraints sp.constraints := built.constraints
  have fits' : ∀ c ∈ (sp.arranged dragged drawn).valid, c.Fits := fits_arranged fits
  have valid : (sp'.constraints.filter fun c => c.id ∉ sp.conflicting) =
      (sp.arranged dragged drawn).valid := by
    rw [constraints]
    rfl
  refine ⟨?_, fun code => ?_, ?_, ?_, built.numbered, ?_,
    fun h => built.mem_needed fits', (built.ready fits').sorted, Problem.dragged_of_load built.problem,
    ?_, built.sketch⟩
  · rw [constraints]
    exact sorted_sortConstraints sp.constraints
  · rw [constraints]
    exact class_mergeSort sp.constraints code
  · rw [built.space]
    rfl
  · rw [built.params, constraints]
    rfl
  · refine ⟨(sp.arranged dragged drawn).valid.map (·.demands), ?_, ?_⟩
    · rw [valid]
      exact Constraint.mapM_residuals fits'
    · rw [built.equations_eq fits', List.flatMap_def]
  · exact ⟨built.store.get, fun h absent => built.store.frame h fun met =>
      absent (mem_met_arranged.mp met)⟩

/-- **A preparation for no entity, or a forced one for an entity that the sketch has, never fails and
is complete.** The constraints fit, as all do that were created (`Constraint.create_ok`); nothing else
is asked of the space or of the sketch. -/
theorem prepare_complete (sk : Sketch α) (fits : ∀ c ∈ sp.constraints, c.Fits)
    (live : ∀ id, dragged = some id → force = true ∧ sk.contains id = true) :
    ∃ sp' sk', sp.prepare sk dragged force = (.ok (), sp', sk') ∧
      Complete sp sk (sk.dragParams dragged) sp' sk' := by
  obtain ⟨sp', sk', build, built⟩ := build_ok sk (fits_arranged fits)
  exact ⟨sp', sk', (prepare_eq_build sp live).trans build, built.complete fits⟩

/-- A segment that has lost its first end, with ids that are taken twice. -/
def brokenSegment : Sketch Float :=
  { oneSegment.without [⟨1⟩] with store := (oneSegment.store.setId ⟨0⟩ 7).setId ⟨3⟩ 7 }

/-- Constraints out of order, one of which takes no part and another one of which has lost a point. -/
def unsortedSpace : Space Float :=
  { Space.create 0 Settings.standard with
    constraints := [
      { id := ⟨1⟩, kind := .vertical, entities := [⟨3⟩], params := [⟨0⟩, ⟨1⟩, ⟨2⟩, ⟨3⟩] },
      { id := ⟨2⟩, kind := .horizontal, entities := [⟨3⟩], params := [⟨0⟩, ⟨1⟩, ⟨2⟩, ⟨3⟩] },
      { id := ⟨3⟩, kind := .coincident, entities := [⟨9⟩, ⟨2⟩], params := [⟨8⟩, ⟨9⟩, ⟨2⟩, ⟨3⟩] }]
    conflicting := [⟨2⟩]
    params := ⟨#[⟨3⟩, ⟨0⟩]⟩ }

/-- All of that at once, on a sketch whose ids are in disorder. -/
theorem prepare_unsortedSpace : ∃ sp sk,
    unsortedSpace.prepare brokenSegment (some ⟨2⟩) true = (.ok (), sp, sk) ∧
    Complete unsortedSpace brokenSegment [⟨2⟩, ⟨3⟩] sp sk := by
  have fits : ∀ c ∈ unsortedSpace.constraints, c.Fits := by
    unfold Constraint.Fits
    decide
  have live : ∀ id, some (⟨2⟩ : EntityId) = some id →
      true = true ∧ brokenSegment.contains id = true := by
    rintro id ⟨⟩
    exact ⟨rfl, by decide +kernel⟩
  exact prepare_complete brokenSegment fits live

end SketchSolver.Space
