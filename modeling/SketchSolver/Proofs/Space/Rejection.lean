import SketchSolver.Proofs.Space.Removing
import SketchSolver.Proofs.Space.Rollback

/-!
# A rejected constraint leaves no trace

A constraint that makes a space unsolvable is taken out again. By then it has been sorted in,
its parameters were numbered, and a solve has given up half-way. The main statement
`rejected_as_never_added` compares what is left with what preparing and solving the space
without the constraint leaves: the spaces are equal, and so are the entities, all values and
all ids.

The comparison goes through the solve that failed: it changed no value
(`value_of_failed_solve`) and no id that numbering does not set again, so the two spaces are
built alike (`Built.unique`), and a solve does not read what differs (`solve_congr`).

One side adds the constraint, sorts, builds and solves; takes it out, builds and solves again.
The other side sorts, builds and solves once. They meet in the middle, at the list that is
built last, and there are two things to be shown about it. Taking the constraint out of the
sorted list gives the list sorted without it, since sorting is stable and no other constraint
has its id (`eraseP_sortConstraints`). And the ids that differ by then are those of
parameters that only the rejected constraint brought in; they belong to no entity and to no
other constraint, so the last build does not meet them. Such parameters keep the ids that
the attempt gave them, hence ids are compared for all others. `Attempted` says what the
failed attempt leaves.

The last solve may succeed or fail, and it does so on both sides alike. That it fails is
possible: the space may have been unsolvable before.

A decoration that the constraint carries becomes free, as it does whenever a constraint is
taken out.
-/

namespace SketchSolver.Space

variable {α : Type} [Zero α] {sp : Space α} {sk : Sketch α} {c : Constraint}

/-- A constraint that no space hosts yet: it fits, and neither the space nor an entity knows its id. -/
structure New (sp : Space α) (sk : Sketch α) (c : Constraint) : Prop where
  fits : c.Fits
  unhosted : ∀ d ∈ sp.constraints, d.id ≠ c.id
  unmarked : c.id ∉ sp.conflicting
  unregistered : ∀ e ∈ sk.entities, c.id ∉ e.constraints

omit [Zero α] in
/-- Among sorted constraints the last one added is the only one with its id. -/
theorem sorted_alone {cs : List Constraint} (unhosted : ∀ d ∈ cs, d.id ≠ c.id) :
    (sortConstraints (cs ++ [c])).Pairwise
      fun x y => ¬ (decide (x.id = c.id) = true ∧ decide (y.id = c.id) = true) := by
  refine ((List.mergeSort_perm (cs ++ [c]) _).symm.pairwise_iff ?_).mp ?_
  · intro x y alone both
    exact alone ⟨both.2, both.1⟩
  · have miss : ∀ x ∈ cs, ¬ decide (x.id = c.id) = true := fun x mem hit =>
      unhosted x mem (of_decide_eq_true hit)
    refine List.pairwise_append.mpr ⟨?_, List.pairwise_singleton _ _, fun x hx y _ both => ?_⟩
    · refine List.pairwise_iff_getElem.mpr fun i j hi _ _ both => ?_
      exact miss _ (List.getElem_mem hi) both.1
    · exact miss x hx both.1

omit [Zero α] in
/-- Taking the last one added out of sorted constraints leaves the others sorted. -/
theorem eraseP_sortConstraints {cs : List Constraint} (unhosted : ∀ d ∈ cs, d.id ≠ c.id) :
    (sortConstraints (cs ++ [c])).eraseP (fun d => d.id = c.id) = sortConstraints cs := by
  rw [eraseP_eq_filter (sorted_alone unhosted)]
  unfold sortConstraints
  rw [filter_mergeSort, List.filter_append]
  have kept : (cs.filter fun d => !decide (d.id = c.id)) = cs := by
    refine List.filter_eq_self.mpr fun d mem => ?_
    simpa using unhosted d mem
  have gone : ([c].filter fun d => !decide (d.id = c.id)) = [] := by simp
  rw [kept, gone, List.append_nil]

omit [Zero α] in
/-- The last one added is found under its id. -/
theorem find?_sortConstraints {cs : List Constraint} (unhosted : ∀ d ∈ cs, d.id ≠ c.id) :
    (sortConstraints (cs ++ [c])).find? (fun d => d.id = c.id) = some c := by
  have mem : c ∈ sortConstraints (cs ++ [c]) :=
    mem_sortConstraints.mpr (List.mem_append_right _ (List.mem_singleton_self c))
  cases found : (sortConstraints (cs ++ [c])).find? fun d => d.id = c.id with
  | none =>
    have := List.find?_eq_none.mp found c mem
    simp at this
  | some d =>
    have hit : d.id = c.id := by simpa using List.find?_some found
    rcases List.mem_append.mp (mem_sortConstraints.mp (List.mem_of_find?_eq_some found)) with
      old | new
    · exact absurd hit (unhosted d old)
    · rw [List.mem_singleton.mp new]

/-- The constraint as a space hosts it. -/
def hostedBy (sp : Space α) (c : Constraint) : Constraint := { c with space := some sp.index }

/-- The state after a solve with one more constraint has failed: the constraint is sorted in, and
nothing has changed but ids of what the space meets, and scratch. -/
structure Attempted (sp : Space α) (sk : Sketch α) (c : Constraint) (sp' : Space α)
    (sk' : Sketch α) : Prop where
  space : sp' = { sp.arranged none [] with
    constraints := sortConstraints (sp.constraints ++ [sp.hostedBy c])
    params := sp'.params
    problem := sp'.problem }
  settings : sp'.problem.settings = sp.problem.settings
  sketch : sk' = { sk with store := sk'.store }
  values : ∀ h, sk'.store.value h = sk.store.value h
  symbols : ∀ h, (sk'.store.get h).symbol = (sk.store.get h).symbol
  ids : ∀ h, h ∉ sp.met sk → h ∉ c.params → sk'.store.id h = sk.store.id h

section Solve

variable [One α] [Add α] [Sub α] [Mul α] [Div α] [Neg α] [LT α] [LE α] [BEq α]
variable [DecidableLT α] [DecidableLE α] [Elementary α] {sp' : Space α} {sk' : Sketch α}

/-- Adding a constraint fails only after an attempt that is taken back. -/
theorem exists_attempt {e : Failure α} (idle : sp.inTransaction = false)
    (fits : ∀ d ∈ sp.constraints, d.Fits) (new : c.Fits)
    (failed : sp.addConstraint sk c = (.error e, sp', sk')) :
    ∃ sp₁ sk₁ cause, Attempted sp sk c sp₁ sk₁ ∧
      sp₁.reject sk₁ c.id cause = (.error e, sp', sk') := by
  have fitsA : ∀ d ∈ ({ sp with constraints := sp.constraints ++ [sp.hostedBy c] } :
      Space α).arranged none [] |>.valid, d.Fits := by
    refine fits_arranged fun d mem => ?_
    rcases List.mem_append.mp mem with old | added
    · exact fits d old
    · rw [List.mem_singleton.mp added]
      exact new
  obtain ⟨spB, skB, build, built⟩ := build_ok sk fitsA
  unfold addConstraint at failed
  simp only at failed
  rw [if_neg (by rw [idle]; simp), prepare_none] at failed
  unfold hostedBy at build
  rw [build] at failed
  simp only at failed
  have frame := solve_frame spB skB false
  cases solved : spB.solve skB false with
  | mk result rest =>
    obtain ⟨spC, skC⟩ := rest
    rw [solved] at failed frame
    cases result with
    | ok report => simp at failed
    | error cause =>
      -- the space was built before the solve, so the failure has put every value back
      have values := value_of_failed_solve (built.covered fitsA) solved
      have freedom := freedom_of_failed_solve solved
      refine ⟨spC, skC, cause, ⟨?_, ?_, ?_, fun h => ?_, fun h => ?_, fun h unmet stray => ?_⟩,
        failed⟩
      · have same : spC = { spB with problem := spC.problem, freedom := spC.freedom } :=
          frame.space
        rw [same, freedom, built.space]
        rfl
      · exact frame.settings.trans built.settings
      · have same : skC = { skB with store := skC.store } := frame.sketch
        rw [same, built.sketch]
      · rw [values h]
        exact built.store.value h
      · exact (frame.symbols h).trans (built.symbol h)
      -- ids were written while building only, of what the space met with the constraint in it
      · refine (frame.ids h).trans (built.store.id fun mem => ?_)
        rcases List.mem_append.mp mem with drawn | hosted
        · exact unmet (List.mem_append_left _ drawn)
        · obtain ⟨d, hd, hh⟩ := List.mem_flatMap.mp hosted
          rcases List.mem_append.mp (mem_sortConstraints.mp hd) with old | added
          · exact unmet (List.mem_append_right _ (List.mem_flatMap.mpr ⟨d, old, hh⟩))
          · rw [List.mem_singleton.mp added] at hh
            exact stray hh

/-- Rejecting takes the constraint out again, and builds and solves the space without it. -/
theorem reject_eq {sp₁ : Space α} {sk₁ : Sketch α} (attempted : Attempted sp sk c sp₁ sk₁)
    (fits : ∀ d ∈ sp.constraints, d.Fits) (unhosted : ∀ d ∈ sp.constraints, d.id ≠ c.id)
    (unmarked : c.id ∉ sp.conflicting) (cause : SolveFailure α) :
    ∃ sp₂ sk₂ sp₃ sk₃, Built sp₂ sk₂ sp₃ sk₃ ∧
      sp₂ = { sp.arranged none [] with params := sp₂.params, problem := sp₂.problem } ∧
      sp₂.problem.settings = sp.problem.settings ∧
      sk₂ = { sk.unregister c.id c.entities with
        store := sk₁.store, decorations := sk.decorations.filter fun d => c.decoration ≠ some d } ∧
      sp₁.reject sk₁ c.id cause =
        (.error (.rejected cause), (sp₃.solve sk₃ false).2.1, (sp₃.solve sk₃ false).2.2) := by
  have found : ({ sp₁ with conflicting := c.id :: sp₁.conflicting } : Space α).constraint? c.id =
      some (sp.hostedBy c) := by
    unfold constraint?
    rw [attempted.space]
    exact find?_sortConstraints (c := sp.hostedBy c) unhosted
  have eq := removeConstraint_eq sk₁ found
  have constraints : sp₁.constraints.eraseP (fun d => d.id = c.id) =
      sortConstraints sp.constraints := by
    rw [attempted.space]
    exact eraseP_sortConstraints (c := sp.hostedBy c) unhosted
  -- the mark goes with the constraint, and no other mark had its id
  have conflicting : (c.id :: sp₁.conflicting).filter (· ≠ c.id) = sp.conflicting := by
    rw [attempted.space, List.filter_cons_of_neg (by simp)]
    refine List.filter_eq_self.mpr fun d mem => ?_
    have ne : d ≠ c.id := fun eq => unmarked (eq ▸ mem)
    simpa using ne
  have detached : ((sp.hostedBy c).undecorate (sk₁.unregister c.id (sp.hostedBy c).entities)).2 =
      { sk.unregister c.id c.entities with
        store := sk₁.store,
        decorations := sk.decorations.filter fun d => c.decoration ≠ some d } := by
    rw [Constraint.undecorate_eq, attempted.sketch]
    rfl
  simp only at eq
  rw [constraints, conflicting, detached] at eq
  have fits' : ∀ d ∈ ({ sp₁ with
      constraints := sortConstraints sp.constraints, conflicting := sp.conflicting } :
      Space α).valid, d.Fits := fun d mem => fits d (mem_sortConstraints.mp (valid_sub mem))
  obtain ⟨sp₃, sk₃, build, built⟩ := build_ok _ fits'
  refine ⟨_, _, sp₃, sk₃, built, ?_, attempted.settings, rfl, ?_⟩
  · rw [attempted.space]
    rfl
  · unfold reject
    rw [eq]
    simp only
    rw [build]

/-- **A rejected constraint leaves a space as if it had never been added**: the failure tells why the
solve with it failed, and all else is what preparing and solving without it leaves. Ids are
compared where the space meets the parameters of the constraint. -/
theorem rejected_as_never_added {e : Failure α} (idle : sp.inTransaction = false)
    (fits : ∀ d ∈ sp.constraints, d.Fits) (new : New sp sk c)
    (rejected : sp.addConstraint sk c = (.error e, sp', sk')) :
    ∃ cause sp₁ sk₁, e = .rejected cause ∧ sp.prepare sk none true = (.ok (), sp₁, sk₁) ∧
      sp' = (sp₁.solveNow sk₁ false).2.1 ∧
      sk'.entities = (sp₁.solveNow sk₁ false).2.2.entities ∧
      (∀ h, sk'.store.value h = (sp₁.solveNow sk₁ false).2.2.store.value h) ∧
      (∀ h, (h ∈ c.params → h ∈ sp.met sk) →
        sk'.store.id h = (sp₁.solveNow sk₁ false).2.2.store.id h) ∧
      ∀ d, c.decoration = some d → sk'.hasDecoration d = false := by
  obtain ⟨spC, skC, cause, attempted, rejects⟩ := exists_attempt idle fits new.fits rejected
  obtain ⟨sp₂, sk₂, sp₃, sk₃, built, space, settings, sketch, eq⟩ :=
    reject_eq attempted fits new.unhosted new.unmarked cause
  rw [Sketch.unregister_eq_self new.unregistered] at sketch
  rw [eq] at rejects
  simp only [Prod.mk.injEq, Except.error.injEq] at rejects
  obtain ⟨rfl, rfl, rfl⟩ := rejects
  have fitsR : ∀ d ∈ (sp.arranged none []).valid, d.Fits := fun d mem =>
    fits d (mem_sortConstraints.mp (valid_sub mem))
  -- the build that the space would have had without the constraint, to compare with
  obtain ⟨sp₁, sk₁, build, reference⟩ := build_ok sk fitsR
  have params : sk₂.params = sk.params := by
    rw [sketch]
    rfl
  obtain ⟨rfl, ids⟩ := reference.unique built space settings params fitsR
    fun h mem => absurd mem List.not_mem_nil
  have fits₂ : ∀ d ∈ sp₂.valid, d.Fits := by
    rw [space]
    exact fitsR
  have store : sk₂.store = skC.store := by rw [sketch]
  have values : ∀ h, sk₃.store.value h = sk₁.store.value h := by
    intro h
    rw [built.store.value, store, attempted.values, reference.store.value]
  have symbols : ∀ h, (sk₃.store.get h).symbol = (sk₁.store.get h).symbol := by
    intro h
    rw [built.symbol, store, attempted.symbols, reference.symbol]
  have ready := reference.ready fitsR
  have same : ∀ h ∈ sp₃.problem.params.toList, sk₃.store.id h = sk₁.store.id h ∧
      (sk₃.store.get h).symbol = (sk₁.store.get h).symbol := by
    intro h mem
    refine ⟨ids h (reference.mem_params.mp ?_), symbols h⟩
    obtain ⟨d, hd, hh⟩ := (reference.covered fitsR).needed h mem
    exact (reference.covered fitsR).hosted d (valid_sub hd) h hh
  obtain ⟨_, spaces, solved⟩ := solve_congr ready (reference.covered fitsR) (built.covered fits₂)
    same values false
  have frame := solve_frame sp₃ sk₁ false
  have frame₃ := solve_frame sp₃ sk₃ false
  refine ⟨cause, sp₃, sk₁, rfl, (prepare_none sp sk true).trans build, spaces, ?_, solved,
    fun h known => ?_, fun d own => ?_⟩
  · show (sp₃.solve sk₃ false).2.2.entities = (sp₃.solve sk₁ false).2.2.entities
    rw [frame.sketch, frame₃.sketch, built.sketch, reference.sketch, sketch]
  · show (sp₃.solve sk₃ false).2.2.store.id h = (sp₃.solve sk₁ false).2.2.store.id h
    rw [frame.ids, frame₃.ids]
    by_cases mem : h ∈ (sp.arranged none []).met sk
    · exact ids h mem
    · -- no build met it, and the attempt met it only if the constraint has it
      have unmet : h ∉ sp.met sk := fun hh => mem (mem_met_arranged.mpr hh)
      have met₂ : h ∉ sp₂.met sk₂ := by
        rw [space]
        unfold met
        rw [params]
        exact mem
      rw [built.store.id met₂, store, attempted.ids h unmet fun stray => unmet (known stray),
        reference.store.id mem]
  · show ((sp₃.solve sk₃ false).2.2.decorations.contains d) = false
    rw [frame₃.sketch, built.sketch, sketch]
    simp [own]

end Solve

/-- A space that asks that the segment is horizontal. -/
def onceHorizontal : Space Float :=
  { Space.create 0 Settings.standard with
    constraints := [
      { id := ⟨1⟩, kind := .horizontal, entities := [⟨3⟩], params := [⟨0⟩, ⟨1⟩, ⟨2⟩, ⟨3⟩],
        space := some 0 }] }

/-- The same demand once more, with a decoration. -/
def secondHorizontal : Constraint :=
  { id := ⟨2⟩, kind := .horizontal, entities := [⟨3⟩], params := [⟨0⟩, ⟨1⟩, ⟨2⟩, ⟨3⟩],
    decoration := some ⟨1⟩ }

/-- The second of two equal demands is rejected, and nothing of it remains. -/
theorem rejected_secondHorizontal : ∃ e sp' sk' cause sp₁ sk₁,
    onceHorizontal.addConstraint oneSegment secondHorizontal = (.error e, sp', sk') ∧
    e = .rejected cause ∧ onceHorizontal.prepare oneSegment none true = (.ok (), sp₁, sk₁) ∧
    sp' = (sp₁.solveNow sk₁ false).2.1 ∧
    sk'.entities = (sp₁.solveNow sk₁ false).2.2.entities ∧
    (∀ h, sk'.store.value h = (sp₁.solveNow sk₁ false).2.2.store.value h) ∧
    ∀ h, sk'.store.id h = (sp₁.solveNow sk₁ false).2.2.store.id h := by
  have fits : ∀ d ∈ onceHorizontal.constraints, d.Fits := by
    unfold Constraint.Fits
    decide
  have new : New onceHorizontal oneSegment secondHorizontal :=
    ⟨rfl, by decide, by decide, by decide⟩
  have fails : (onceHorizontal.addConstraint oneSegment secondHorizontal).1.toOption.isNone =
      true := by
    unfold addConstraint
    simp only
    rw [prepare_none]
    unfold arranged
    rw [sortConstraints_eq_self (by decide)]
    decide +kernel
  cases added : onceHorizontal.addConstraint oneSegment secondHorizontal with
  | mk result rest =>
    obtain ⟨sp', sk'⟩ := rest
    rw [added] at fails
    cases result with
    | ok _ => simp [Except.toOption] at fails
    | error e =>
      obtain ⟨cause, sp₁, sk₁, failure, prepared, space, entities, values, ids, _⟩ :=
        rejected_as_never_added rfl fits new added
      refine ⟨e, sp', sk', cause, sp₁, sk₁, rfl, failure, prepared, space, entities, values,
        fun h => ids h fun mem => ?_⟩
      exact (show ∀ h ∈ secondHorizontal.params, h ∈ onceHorizontal.met oneSegment by decide) h mem

end SketchSolver.Space
