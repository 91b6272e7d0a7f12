import SketchSolver.Proofs.Space.Rejection
import SketchSolver.Proofs.Space.Settled

/-!
# What operations leave of a space

Each operation on a space has a few outcomes, told apart by `Prepared` and `Added`. Whatever
they are, the constraints fit and take part afterwards, and the sketch is confined; and a
space that was built last is settled.

Preparing has three outcomes. It has nothing to do, because the entity is the one that was
dragged before; the entity to be dragged is not there any more, and by then the constraints
are sorted and the list of parameters is empty, so that the space does not match its problem
until it is prepared again; or the space is built. Adding a constraint has three as well: it
is postponed in a transaction, accepted with a solve that succeeded, or rejected and taken
out again. An addition can also fail in preparing; for constraints that fit it does not.

Each constructor says what the outcome leaves in the terms that later modules use:

- the constraints up to their order, since preparing sorts them;
- the sketch up to its store, with the registering and the decorations named;
- the ids of parameters, through `Sketch.Confined`;
- and whether the space is `Settled`.

What the values are is said elsewhere. A solve that fails puts them back only if the space
lists all that the solve may move, and `Restorable` is the name for that; it follows from
being settled, and this is why an invariant about ids decides whether a failure is harmless.
-/

namespace SketchSolver

variable {α : Type}

namespace Sketch

variable {sk : Sketch α} {dragged : Option EntityId} {h : Handle}

/-- The parameters of the entity that is dragged, if any. -/
def dragParams (sk : Sketch α) (dragged : Option EntityId) : List Handle :=
  match dragged.bind sk.entity? with
  | some e => e.shape.params
  | none => []

theorem mem_params_of_dragParams (mem : h ∈ sk.dragParams dragged) : h ∈ sk.params := by
  unfold dragParams at mem
  split at mem
  next e found =>
    obtain ⟨id, _, found⟩ := Option.bind_eq_some_iff.mp found
    exact List.mem_flatMap.mpr ⟨e, List.mem_of_find?_eq_some found, mem⟩
  next => exact absurd mem List.not_mem_nil

end Sketch

namespace Space

variable [Zero α] {sp sp' : Space α} {sk sk' : Sketch α} {dragged : Option EntityId}
variable {force : Bool}

omit [Zero α] in
/-- Whether preparing has nothing to do. -/
def skips (sp : Space α) (dragged : Option EntityId) (force : Bool) : Bool :=
  dragged.isSome && !force && sp.dragged == dragged

/-- The outcomes of preparing. -/
inductive Prepared (sp : Space α) (sk : Sketch α) (dragged : Option EntityId) (force : Bool) :
    Except (Failure α) Unit × Space α × Sketch α → Prop where
  | skipped (skips : sp.skips dragged force = true) :
    Prepared sp sk dragged force (.ok (), sp, sk)
  | missing (id : EntityId) (skips : sp.skips dragged force = false) (is : dragged = some id)
      (absent : sk.entity? id = none) :
    Prepared sp sk dragged force (.error (.entityNotFound id), sp.arranged dragged [], sk)
  | built (interactive : List Handle) (sp' : Space α) (sk' : Sketch α)
      (found : ∀ id, dragged = some id → sk.entity? id ≠ none)
      (built : Built (sp.arranged dragged interactive) sk sp' sk') :
    Prepared sp sk dragged force (.ok (), sp', sk')

omit [Zero α] in
/-- Sorted constraints fit and take part as before. -/
theorem Regular.arranged (regular : sp.Regular) (dragged : Option EntityId)
    (interactive : List Handle) : (sp.arranged dragged interactive).Regular :=
  ⟨fun c hc => regular.fits c (mem_sortConstraints.mp hc), regular.unmarked⟩

/-- Preparing for an entity, spelled out. -/
theorem prepare_some (sp : Space α) (sk : Sketch α) (id : EntityId) (force : Bool) :
    sp.prepare sk (some id) force =
      if sp.skips (some id) force = true then (.ok (), sp, sk)
      else match sk.entity? id with
        | none => (.error (.entityNotFound id), sp.arranged (some id) [], sk)
        | some e => (sp.arranged (some id) e.shape.params).build sk := by
  unfold prepare skips Sketch.entity
  split
  next => rfl
  next =>
    simp only
    cases sk.entity? id with
    | none => rfl
    | some e => rfl

/-- Preparing for no entity, or by force for one that the sketch has, is building. -/
theorem prepare_eq_build (sp : Space α)
    (live : ∀ id, dragged = some id → force = true ∧ sk.contains id = true) :
    sp.prepare sk dragged force = (sp.arranged dragged (sk.dragParams dragged)).build sk := by
  cases dragged with
  | none => exact prepare_none sp sk force
  | some id =>
    obtain ⟨rfl, there⟩ := live id rfl
    obtain ⟨e, found⟩ := Option.isSome_iff_exists.mp there
    have drawn : sk.dragParams (some id) = e.shape.params := by
      unfold Sketch.dragParams
      simp only [Option.bind_some, found]
    rw [prepare_some, if_neg (by simp [skips]), found, drawn]

theorem prepare_outcome (regular : sp.Regular) (sk : Sketch α) (dragged : Option EntityId)
    (force : Bool) : Prepared sp sk dragged force (sp.prepare sk dragged force) := by
  have builds : ∀ interactive, ∃ sp' sk',
      (sp.arranged dragged interactive).build sk = (.ok (), sp', sk') ∧
        Built (sp.arranged dragged interactive) sk sp' sk' := by
    intro interactive
    refine build_ok sk fun c hc => ?_
    exact (regular.arranged dragged interactive).fits c (valid_sub hc)
  cases dragged with
  | none =>
    obtain ⟨sp', sk', eq, built⟩ := builds []
    rw [prepare_none, eq]
    exact .built [] sp' sk' (fun id is => by simp at is) built
  | some id =>
    rw [prepare_some]
    by_cases skip : sp.skips (some id) force = true
    · rw [if_pos skip]
      exact .skipped skip
    · rw [if_neg skip]
      cases found : sk.entity? id with
      | none => exact .missing id (by simpa using skip) rfl found
      | some e =>
        obtain ⟨sp', sk', eq, built⟩ := builds e.shape.params
        simp only
        rw [eq]
        refine .built e.shape.params sp' sk' (fun id' is => ?_) built
        cases is
        simp [found]

/-- Sorting and forgetting parameters is work on the space alone. -/
theorem arranged_worked (sp : Space α) (sk : Sketch α) (dragged : Option EntityId)
    (interactive : List Handle) : Worked sp sk (sp.arranged dragged interactive) sk :=
  ⟨rfl, List.mergeSort_perm _ _, rfl, id, rfl, .refl _ sk⟩

/-- Whatever the outcome, preparing adds and removes no constraint. -/
theorem Prepared.worked {r : Except (Failure α) Unit × Space α × Sketch α}
    (prepared : Prepared sp sk dragged force r) : Worked sp sk r.2.1 r.2.2 := by
  cases prepared with
  | skipped => exact .refl sp sk
  | missing => exact arranged_worked sp sk dragged []
  | built interactive sp' sk' _ built =>
    exact (arranged_worked sp sk dragged interactive).trans built.worked

/-- What was prepared is settled, if nothing had to be done for settled spaces alone. -/
theorem Prepared.settled {r : Except (Failure α) Unit × Space α × Sketch α}
    (prepared : Prepared sp sk dragged force r) (idle : sp.inTransaction = false)
    (regular : sp.Regular) (due : dragged = none ∨ Settled sp sk) (ok : r.1 = .ok ()) :
    Settled r.2.1 r.2.2 := by
  cases prepared with
  | skipped skips =>
    rcases due with rfl | settled
    · simp [Space.skips] at skips
    · exact settled
  | missing => simp at ok
  | built interactive sp' sk' _ built => exact built.settled idle (regular.arranged _ _)

section Solve

variable [One α] [Add α] [Sub α] [Mul α] [Div α] [Neg α] [LT α] [LE α] [BEq α]
variable [DecidableLT α] [DecidableLE α] [Elementary α]

/-- A solve changes values, tags and degrees of freedom, whether it succeeds or not. -/
theorem solveNow_solved (sp : Space α) (sk : Sketch α) (rough : Bool) :
    Solved sp sk (sp.solveNow sk rough).2.1 (sp.solveNow sk rough).2.2 := solve_frame sp sk rough

/-- **Whatever ending a transaction yields, the space is settled.** -/
theorem finishTransaction_outcome (regular : sp.Regular) (sk : Sketch α) :
    Worked sp sk (sp.finishTransaction sk).2.1 (sp.finishTransaction sk).2.2 ∧
      Settled (sp.finishTransaction sk).2.1 (sp.finishTransaction sk).2.2 := by
  have regular' : ({ sp with inTransaction := false } : Space α).Regular :=
    ⟨regular.fits, regular.unmarked⟩
  have opened : Worked sp sk { sp with inTransaction := false } sk :=
    ⟨rfl, .refl _, rfl, fun _ => rfl, rfl, .refl _ sk⟩
  have prepared := prepare_outcome regular' sk none true
  have worked := prepared.worked
  have settled := prepared.settled rfl regular' (Or.inl rfl)
  unfold finishTransaction
  generalize ({ sp with inTransaction := false } : Space α).prepare sk none true = r
    at prepared worked settled
  cases prepared with
  | skipped skips => simp [Space.skips] at skips
  | missing id _ is => simp at is
  | built _ sp₁ sk₁ _ _ =>
    have solved := solveNow_solved sp₁ sk₁ false
    exact ⟨opened.trans (worked.trans solved.worked), solved.settled (settled rfl)⟩

/-- The space lists every parameter that a solve may move, so that it can be put back. -/
def Restorable (sp : Space α) (s : Store α) : Prop := ∀ rough h,
  (sp.problem.solve rough s).2.2.value h ≠ s.value h → sp.params.byId? s (s.id h) = some h

/-- A space that matches its constraints can be rolled back. -/
theorem Settled.restorable (settled : Settled sp sk) (fits : ∀ c ∈ sp.constraints, c.Fits) :
    sp.Restorable sk.store := by
  intro rough h moved
  have frame := Problem.solve_frame sp.problem rough sk.store
  by_cases mem : h ∈ sp.problem.params.toList
  · exact (settled.matched fits).listed h (settled.needed h mem)
  · exact absurd (frame.store.value mem) moved

/-! ## Adding -/

/-- The outcomes of adding a constraint. -/
inductive Added (sp : Space α) (sk : Sketch α) (c : Constraint) :
    Except (Failure α) Unit × Space α × Sketch α → Prop where
  | postponed (busy : sp.inTransaction = true) :
    Added sp sk c (.ok (), { sp with constraints := sp.constraints ++ [sp.hostedBy c] },
      sk.register c.id c.entities)
  | accepted (sp' : Space α) (sk' : Sketch α) (index : sp'.index = sp.index)
      (constraints : sp'.constraints.Perm (sp.constraints ++ [sp.hostedBy c]))
      (conflicting : sp'.conflicting = sp.conflicting)
      (sketch : sk' = { sk.register c.id c.entities with store := sk'.store })
      (confined : sk.Confined (sp.hostedParams ++ c.params) sk') (settled : Settled sp' sk') :
    Added sp sk c (.ok (), sp', sk')
  | rejected (e : Failure α) (sp' : Space α) (sk' : Sketch α) (index : sp'.index = sp.index)
      (constraints : sp'.constraints.Perm sp.constraints)
      (conflicting : sp'.conflicting = sp.conflicting)
      (sketch : sk' = { sk.unregister c.id c.entities with
        store := sk'.store, decorations := sk.decorations.filter fun d => c.decoration ≠ some d })
      (confined : sk.Confined (sp.hostedParams ++ c.params) sk') (settled : Settled sp' sk') :
    Added sp sk c (.error e, sp', sk')

variable {c : Constraint}

/-- A constraint that was not rejected has been sorted in, built and solved. -/
theorem accepted_of_ok (idle : sp.inTransaction = false) (regular : sp.Regular) (new : c.Fits)
    (added : sp.addConstraint sk c = (.ok (), sp', sk')) : Added sp sk c (.ok (), sp', sk') := by
  have regular' : ({ sp with constraints := sp.constraints ++ [sp.hostedBy c] } :
      Space α).Regular := by
    refine ⟨fun d hd => ?_, regular.unmarked⟩
    rcases List.mem_append.mp hd with old | last
    · exact regular.fits d old
    · rw [List.mem_singleton.mp last]
      exact new
  obtain ⟨sp₁, sk₁, build, built⟩ := build_ok sk fun d hd =>
    (regular'.arranged none []).fits d (valid_sub hd)
  unfold hostedBy at build
  unfold addConstraint at added
  simp only at added
  rw [if_neg (by rw [idle]; simp), prepare_none, build] at added
  simp only at added
  have solved := solve_frame sp₁ sk₁ false
  cases eq : sp₁.solve sk₁ false with
  | mk result rest =>
    obtain ⟨sp₂, sk₂⟩ := rest
    rw [eq] at added solved
    simp only at added solved
    cases result with
    | error cause =>
      -- a rejection never yields success
      simp only at added
      unfold reject at added
      split at added
      next => simp at added
      next =>
        split at added
        next => simp at added
        next => simp at added
    | ok report =>
      simp only [Prod.mk.injEq, true_and] at added
      obtain ⟨rfl, rfl⟩ := added
      have worked := ((arranged_worked _ sk none []).trans built.worked).trans solved.worked
      have settled := solved.settled (built.settled idle (regular'.arranged none []))
      have registered : ∀ ps, sk₂.Confined ps (sk₂.register c.id c.entities) := fun ps =>
        .of_ids (Sketch.params_changeConstraints _) fun _ => rfl
      refine .accepted _ _ worked.index worked.constraints worked.conflicting ?_ ?_ ?_
      · have same : sk₂ = { sk with store := sk₂.store } := worked.sketch
        rw [same]
        rfl
      · refine (worked.confined.mono fun h mem => ?_).trans (registered _)
        unfold hostedParams at mem
        rw [List.flatMap_append, List.flatMap_singleton] at mem
        exact mem
      · exact settled.of_ids (registered []).params fun _ => rfl

/-- **Whatever becomes of a constraint that is added at once, the space is settled.** -/
theorem addConstraint_outcome (regular : sp.Regular) (sk : Sketch α) (new : c.Fits)
    (unhosted : ∀ d ∈ sp.constraints, d.id ≠ c.id) :
    Added sp sk c (sp.addConstraint sk c) := by
  cases busy : sp.inTransaction with
  | true =>
    unfold addConstraint
    simp only
    rw [if_pos busy]
    exact .postponed busy
  | false =>
    cases added : sp.addConstraint sk c with
    | mk result rest =>
      obtain ⟨sp', sk'⟩ := rest
      cases result with
      | ok _ => exact accepted_of_ok busy regular new added
      | error e =>
        -- the failed attempt, and then the space is built without the constraint
        obtain ⟨spC, skC, cause, attempted, rejects⟩ :=
          exists_attempt busy regular.fits new added
        have unmarked : c.id ∉ sp.conflicting := by
          rw [regular.unmarked]
          exact List.not_mem_nil
        obtain ⟨sp₂, sk₂, sp₃, sk₃, built, space, _, sketch, eq⟩ :=
          reject_eq attempted regular.fits unhosted unmarked cause
        rw [eq] at rejects
        simp only [Prod.mk.injEq, Except.error.injEq] at rejects
        obtain ⟨rfl, rfl, rfl⟩ := rejects
        have solved := solve_frame sp₃ sk₃ false
        have regular₂ : sp₂.Regular := by
          rw [space]
          exact ⟨(regular.arranged none []).fits, regular.unmarked⟩
        have worked := built.worked.trans solved.worked
        have settled := solved.settled (built.settled (by rw [space]; exact busy) regular₂)
        have params : sk₂.params = sk.params := by
          rw [sketch]
          exact Sketch.params_unregister
        have constraints : sp₂.constraints.Perm sp.constraints := by
          rw [space]
          exact List.mergeSort_perm _ _
        have index : sp₂.index = sp.index := by
          rw [space]
          rfl
        refine .rejected _ _ _ (worked.index.trans index) (worked.constraints.trans constraints)
          ?_ ?_ ?_ settled
        · refine worked.conflicting.trans ?_
          rw [space]
          rfl
        · rw [worked.sketch, sketch]
        · refine ⟨worked.confined.params.trans params, fun h undrawn free => ?_, ?_⟩
          · -- neither the attempt nor the second build met it
            have away : h ∉ sp.hostedParams := fun mem => free (List.mem_append_left _ mem)
            have stray : h ∉ c.params := fun mem => free (List.mem_append_right _ mem)
            have unmet : h ∉ sp.met sk := fun mem => (List.mem_append.mp mem).elim undrawn away
            rw [worked.confined.ids h (by rwa [params]) fun mem =>
              away ((Worked.mem_hostedParams constraints).mp mem), sketch]
            exact attempted.ids h unmet stray
          · -- the second build numbers what is drawn, whatever the attempt did
            refine Or.inr fun h drawn => ?_
            rw [← params] at drawn ⊢
            exact (solved.ids h).trans (built.numbered.id_eq_idxOf built.params drawn)

end Solve

end Space

end SketchSolver
