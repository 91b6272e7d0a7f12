import SketchSolver.Proofs.Session.Operations

/-!
# When a session is in step

A sound session is in step (`Sound.inStep`), and an operation that does not slip keeps it
sound. One that slips always takes it out of step: either the problems have more
equations than the constraints demand, or a space has lost its list of parameters.
So a run stays in step exactly as long as nothing slips (`inStep_iff`).

The two halves are of a different kind. That nothing else slips is an induction along the
run, with `Sound` as the invariant, which says more than `InStep` and is kept by every
operation that does not slip. That slips are noticed is a matter of counting. In step, the
problem of a space has as many equations as its constraints demand
(`loaded_eq_demanded`); clearing and an interrupted removal keep the loaded equations and
lower the demand. Preparing for an entity that is not there is noticed on the list instead:
a space that hosts a constraint needs at least one parameter, and its list is empty
(`not_matched_arranged`).

While nothing slips, the parameters that a solve can move are those that its space puts
back when it fails (`throughout_restorable`); this is what makes a failed solve harmless.

Being out of step does not last. The session is still in order, and the next refresh makes
it sound again, whatever happened before (`inStep_refresh`).
-/

namespace SketchSolver

namespace Session

variable {α : Type} [Zero α] {s : Session α} {sp : Space α} {sk : Sketch α}

/-- Settled spaces are matched to their constraints. -/
theorem Sound.inStep (sound : s.Sound) : s.InStep := fun idle sp mem =>
  (sound.settled idle sp mem).matched (sound.orderly.regular sp mem).fits

/-- Outside a transaction the parameters that a solve moves can be put back. -/
def Restorable [One α] [Add α] [Sub α] [Mul α] [Div α] [Neg α] [LT α] [LE α] [BEq α]
    [DecidableLT α] [DecidableLE α] [Elementary α] (s : Session α) : Prop :=
  s.inTransaction = false → ∀ sp ∈ s.spaces, sp.Restorable s.sketch.store

/-- In settled spaces every unknown of the problem is in the list that a failed solve puts back. -/
theorem Sound.restorable [One α] [Add α] [Sub α] [Mul α] [Div α] [Neg α] [LT α] [LE α] [BEq α]
    [DecidableLT α] [DecidableLE α] [Elementary α] (sound : s.Sound) : s.Restorable :=
  fun idle sp mem => (sound.settled idle sp mem).restorable (sound.orderly.regular sp mem).fits

/-- A matched space has as many equations as its constraints demand. -/
theorem length_of_matched {store : Store α} (matched : sp.Matched store)
    (fits : ∀ c ∈ sp.constraints, c.Fits) :
    sp.problem.equations.toList.length = demandedOf sp := by
  obtain ⟨equations, eq, same⟩ := matched.equations
  obtain ⟨equations', eq', _, exprs, _⟩ := Space.equationsOf_ok (α := α) fits
  rw [eq] at eq'
  cases eq'
  have length := congrArg List.length (EquationList.exprs_of_untagged same)
  rw [exprs, List.length_map] at length
  exact length

/-- In step and outside a transaction, as many equations are loaded as are demanded. -/
theorem loaded_eq_demanded (inOrder : s.InOrder) (inStep : s.InStep)
    (idle : s.inTransaction = false) : s.loaded = s.demanded := by
  unfold loaded demanded
  refine congrArg List.sum (List.map_congr_left fun sp mem => ?_)
  exact length_of_matched (inStep idle sp mem) (inOrder.orderly.regular sp mem).fits

/-- A space that hosts constraints needs its list of parameters. -/
theorem not_matched_arranged (settled : sp.Settled sk) (fits : ∀ c ∈ sp.constraints, c.Fits)
    (hosts : sp.constraints ≠ []) (dragged : Option EntityId) (store : Store α) :
    ¬ (sp.arranged dragged []).Matched store := by
  intro matched
  -- some constraint demands an equation that mentions a parameter, and none is listed
  obtain ⟨c, hc⟩ := List.exists_mem_of_ne_nil _ hosts
  obtain ⟨e, demanded, mentions⟩ := Constraint.exists_mentioning (α := α) (fits c hc)
  obtain ⟨h, hh⟩ := List.exists_mem_of_ne_nil _ mentions
  have mem : e ∈ sp.problem.equations.toList.map (·.expr) := by
    rw [settled.exprs fits]
    exact List.mem_flatMap.mpr ⟨c, hc, demanded⟩
  obtain ⟨equation, loaded, rfl⟩ := List.mem_map.mp mem
  have listed := matched.listed h (List.mem_flatMap.mpr ⟨equation, loaded, hh⟩)
  exact absurd (ParamList.byId?_mem listed) List.not_mem_nil

/-- Preparing for an entity that is not there takes a session out of step. -/
theorem not_inStep_of_strands {id : EntityId} {force : Bool} (sound : s.Sound)
    (idle : s.inTransaction = false) (strands : s.Strands id force) :
    (s.prepare (some id) force).1 = .error (.entityNotFound id) ∧
      ¬ (s.prepare (some id) force).2.InStep := by
  obtain ⟨absent, sp, first, hosts⟩ := strands
  rcases prepare_missing absent force with ⟨none, _⟩ | ⟨pre, sp', post, split, first', eq⟩
  · rw [none] at first
    simp at first
  · rw [first] at first'
    cases first'
    have mem : sp ∈ s.spaces := by
      rw [split]
      exact List.mem_append_right _ List.mem_cons_self
    rw [eq]
    refine ⟨rfl, fun inStep => ?_⟩
    refine not_matched_arranged (sound.settled idle sp mem) (sound.orderly.regular sp mem).fits
      hosts (some id) s.sketch.store (inStep idle _ ?_)
    exact List.mem_append_right _ List.mem_cons_self

end Session

namespace Operation

open Session

variable {α : Type} [Zero α] [One α] [Add α] [Sub α] [Mul α] [Div α] [Neg α] [LT α] [LE α] [BEq α]
variable [DecidableLT α] [DecidableLE α] [Elementary α] {op : Operation α} {s : Session α}

/-- **An operation that slips takes a session out of step.** -/
theorem not_inStep_of_slips (sound : s.Sound) (slips : op.Slips s) : ¬ (op.apply s).InStep := by
  obtain ⟨idle, slips⟩ := slips
  have before := loaded_eq_demanded sound.toInOrder sound.inStep idle
  cases op with
  | clear =>
    -- nothing is demanded any more, and what was demanded before is still loaded
    intro inStep
    obtain ⟨i, c, hosted⟩ := slips
    obtain ⟨_, _, _, _, positive⟩ := detach_hosted sound.toInOrder hosted
    obtain ⟨loaded, demanded⟩ := loaded_clear sound.toInOrder
    have idle' : s.clear.inTransaction = false := by
      obtain ⟨_, _, eq, _⟩ := clear_eq sound.toInOrder
      rw [eq]
      exact idle
    have after := loaded_eq_demanded (clear_inOrder sound.toInOrder) inStep idle'
    omega
  | removeConstraints ids =>
    obtain ⟨⟨i, c, hosted, head⟩, kept⟩ := slips
    obtain ⟨gone, freed⟩ := detachEach_freed ids sound.toInOrder
    have less : (detachEach ids s).2.demanded < s.demanded := by
      cases ids with
      | nil => simp at head
      | cons id ids =>
        rw [List.head?_cons, Option.some.injEq] at head
        rw [head]
        exact detachEach_hosted sound.toInOrder hosted ids
    cases found : detachEach ids s with
    | mk result s' =>
      cases result with
      | ok removed => exact absurd ((detachEach_ok_iff sound.toInOrder).mp ⟨removed, s', found⟩) kept
      | error e =>
        -- less is demanded since the first constraint went, and nothing was loaded anew
        rw [found] at freed less
        intro inStep
        have same : (removeConstraints ids).apply s = s' :=
          congrArg Prod.snd (removeConstraints_of_error found)
        rw [same] at inStep
        have after := loaded_eq_demanded freed.inOrder inStep (freed.inTransaction.trans idle)
        refine Nat.lt_irrefl s'.demanded ?_
        calc s'.demanded < s.demanded := less
          _ = s.loaded := before.symm
          _ = s'.loaded := freed.loaded.symm
          _ = s'.demanded := after
  | prepare dragged force =>
    cases dragged with
    | none => exact slips.elim
    | some id => exact (not_inStep_of_strands sound idle slips).2
  | drag id dx dy =>
    -- a drag begins with preparing, and ends there when that fails
    obtain ⟨fails, out⟩ := not_inStep_of_strands sound idle slips
    have same : (drag id dx dy).apply s = (s.prepare (some id) s.locked).2 := by
      show (s.drag id dx dy).2 = _
      unfold Session.drag
      generalize s.prepare (some id) s.locked = r at fails
      obtain ⟨result, s'⟩ := r
      simp only at fails
      rw [fails]
    rw [same]
    exact out
  | _ => exact slips.elim

/-! ## Runs -/

/-- A property of every operation of a run and the session that it is applied to. -/
def Throughout (P : Operation α → Session α → Prop) : List (Operation α) → Session α → Prop
  | [], _ => True
  | op :: ops, s => P op s ∧ Throughout P ops (op.apply s)

/-- Along a run from a sound session, being in step after every operation is never having slipped.
-/
theorem throughout_inStep_iff : ∀ {ops : List (Operation α)} {s : Session α}, s.Sound →
    Throughout Welcome ops s →
    (Throughout (fun op s => (op.apply s).InStep) ops s ↔
      Throughout (fun op s => ¬ op.Slips s) ops s)
  | [], _, _, _ => Iff.rfl
  | op :: ops, s, sound, ⟨welcome, later⟩ => by
    by_cases slips : op.Slips s
    · exact ⟨fun both => absurd both.1 (not_inStep_of_slips sound slips),
        fun both => absurd slips both.1⟩
    · have sound' := sound_apply sound welcome slips
      have ih := throughout_inStep_iff sound' later
      exact ⟨fun both => ⟨slips, ih.mp both.2⟩, fun both => ⟨sound'.inStep, ih.mpr both.2⟩⟩

/-- Along a run without slips, whatever a solve moves can be put back. -/
theorem throughout_restorable : ∀ {ops : List (Operation α)} {s : Session α}, s.Sound →
    Throughout Welcome ops s → Throughout (fun op s => ¬ op.Slips s) ops s →
    Throughout (fun op s => (op.apply s).Restorable) ops s
  | [], _, _, _, _ => trivial
  | op :: ops, s, sound, ⟨welcome, later⟩, ⟨safe, safe'⟩ => by
    have sound' := sound_apply sound welcome safe
    exact ⟨sound'.restorable, throughout_restorable sound' later safe'⟩

/-- **A session stays in step exactly as long as nothing slips**, and so long every parameter that a
solve may move can be put back. -/
theorem inStep_iff {sketch : Sketch α} (distinct : sketch.Distinct) (settings : Settings α)
    {ops : List (Operation α)} (welcome : Throughout Welcome ops (Session.create sketch settings)) :
    (Throughout (fun op s => (op.apply s).InStep) ops (Session.create sketch settings) ↔
      Throughout (fun op s => ¬ op.Slips s) ops (Session.create sketch settings)) ∧
    (Throughout (fun op s => ¬ op.Slips s) ops (Session.create sketch settings) →
      Throughout (fun op s => (op.apply s).Restorable) ops (Session.create sketch settings)) :=
  ⟨throughout_inStep_iff (create_sound distinct settings) welcome,
    throughout_restorable (create_sound distinct settings) welcome⟩

/-- The demand that the segment is horizontal, as it is created on the sketch. -/
def levelDemand : Constraint :=
  { id := ⟨1⟩, kind := .horizontal, entities := [⟨3⟩], params := [⟨0⟩, ⟨1⟩, ⟨2⟩, ⟨3⟩] }

/-- A run that hosts the demand and then takes it out together with the segment. -/
def levelRun : List (Operation Float) :=
  [.create .horizontal [⟨3⟩], .add 0 levelDemand, .addSpace, .solve true, .removeEntities [⟨3⟩],
    .refresh]

/-- The run hosts a demand and removes it with its segment, and stays in step. -/
theorem inStep_levelRun :
    Throughout Welcome levelRun (Session.create Space.oneSegment Settings.standard) ∧
    Throughout (fun op s => (op.apply s).InStep) levelRun
      (Session.create Space.oneSegment Settings.standard) ∧
    Throughout (fun op s => (op.apply s).Restorable) levelRun
      (Session.create Space.oneSegment Settings.standard) := by
  have distinct : Space.oneSegment.Distinct := ⟨by decide, by decide⟩
  have fits : levelDemand.Fits := by
    unfold Constraint.Fits
    decide
  have nothing : ∀ i d, ¬ Hosts [Space.create 0 Settings.standard] i d := by
    rintro i d ⟨sp, at', hd⟩
    rw [List.mem_singleton.mp (List.mem_of_getElem? at')] at hd
    exact List.not_mem_nil hd
  have welcome : Throughout Welcome levelRun
      (Session.create Space.oneSegment Settings.standard) := by
    refine ⟨trivial, ⟨fits, by decide, ?_, ?_⟩, trivial, trivial, trivial, trivial, trivial⟩
    · exact fun i d hosted => absurd hosted (nothing i d)
    · exact fun i d hosted => absurd hosted (nothing i d)
  obtain ⟨iff, restorable⟩ := inStep_iff distinct Settings.standard welcome
  have safe : Throughout (fun op s => ¬ op.Slips s) levelRun
      (Session.create Space.oneSegment Settings.standard) :=
    ⟨fun h => h.2, fun h => h.2, fun h => h.2, fun h => h.2, fun h => h.2, fun h => h.2, trivial⟩
  exact ⟨welcome, iff.mpr safe, restorable safe⟩

/-- **A session that was cleared is out of step**: what the demand asked for is still loaded. -/
theorem not_inStep_of_clear_levelDemand :
    ¬ (clear.apply ((constrain .horizontal [⟨3⟩]).apply
      (Session.create Space.oneSegment Settings.standard))).InStep := by
  have distinct : Space.oneSegment.Distinct := ⟨by decide, by decide⟩
  have sound : ((constrain .horizontal [⟨3⟩]).apply
      (Session.create Space.oneSegment Settings.standard)).Sound :=
    sound_apply (create_sound distinct Settings.standard) trivial fun slips => slips.2
  -- the demand was accepted, so it is hosted when the session is cleared
  have hosted : ((Session.create Space.oneSegment Settings.standard).constrain .horizontal
      [⟨3⟩]).2.constraints.isEmpty = false := by
    have created : Constraint.create Space.oneSegment .horizontal [⟨3⟩] =
        .ok (levelDemand, { Space.oneSegment with constraintCount := 1 }) := rfl
    unfold Session.constrain Session.create
    simp only [created]
    unfold Session.add Session.addToSpace Session.space Space.addConstraint
    simp only [List.getElem?_cons_zero]
    rw [Space.prepare_none]
    unfold Space.arranged
    rw [Space.sortConstraints_eq_self (by decide)]
    decide +kernel
  obtain ⟨c, mem⟩ := List.isEmpty_eq_false_iff_exists_mem.mp hosted
  obtain ⟨sp, mem, hc⟩ := List.mem_flatMap.mp mem
  obtain ⟨i, found⟩ := List.mem_iff_getElem?.mp mem
  refine not_inStep_of_slips sound ⟨?_, i, c, sp, found, hc⟩
  decide +kernel

/-! ## After a slip -/

/-- The session after a run. -/
def run (ops : List (Operation α)) (s : Session α) : Session α :=
  ops.foldl (fun s op => op.apply s) s

/-- A run keeps the order, with slips or without. -/
theorem inOrder_run : ∀ {ops : List (Operation α)} {s : Session α}, s.InOrder →
    Throughout Welcome ops s → (run ops s).InOrder
  | [], _, inOrder, _ => inOrder
  | op :: ops, s, inOrder, ⟨welcome, later⟩ => by
    have next := inOrder_apply inOrder welcome
    exact inOrder_run (s := op.apply s) next later

/-- **A refresh brings a session in step again**, whatever slipped before. -/
theorem inStep_refresh {sketch : Sketch α} (distinct : sketch.Distinct) (settings : Settings α)
    {ops : List (Operation α)} (welcome : Throughout Welcome ops (Session.create sketch settings)) :
    (run ops (Session.create sketch settings)).refresh.2.InStep :=
  (refresh_sound (inOrder_run (create_sound distinct settings).toInOrder welcome)).2.inStep

end Operation

end SketchSolver
