import SketchSolver.Proofs.Sketch.Traces
import SketchSolver.Proofs.Space.Upkeep

/-!
# Constraints on file

A space has its constraints on file when each of them tells the space and was created on the
sketch, and they are sorted by the codes of their kinds; those that wait for the end of a
transaction need not be sorted (`Filed`).

All operations on a space keep this (`Files`), whether they fail or not. Sorting comes first
in preparing, and what is sorted stays so when constraints are taken out. A constraint that
is added comes last and may break the order, but then either the space is in a transaction,
or it is prepared next, and whatever becomes of the solve after that, what is left is a part
of a sorted list.

`Files` has two halves. About the space it says that its index stays, that it does not put
off solving if it did not before, and that the constraints on file stay on file. About the
sketch it says that it `Retains` what a constraint needs in order to be created again. Both
are transitive, so an operation is filed as its steps are, and the modules about sessions
have nothing to unfold: they need one lemma for each operation on a space.

That constraints stay sorted matters to nobody who solves, for equations are numbered in the
order of the list whatever it is. It matters to whoever undoes a removal: a space that is
prepared again has its constraints where they were, so that adding what was removed leads to
the same list.
-/

namespace SketchSolver

variable {α : Type}

namespace Space

variable {sp sp' sp'' : Space α} {sk sk' sk'' : Sketch α} {c : Constraint} {id : ConstraintId}

/-- The constraints tell the space and were created on the sketch. They are sorted unless solving is
put off. -/
structure Filed (sp : Space α) (sk : Sketch α) : Prop where
  hosted : ∀ c ∈ sp.constraints, c.space = some sp.index ∧ sk.Traces c
  sorted : sp.inTransaction = false →
    sp.constraints.Pairwise fun c d => c.kind.code ≤ d.kind.code

/-- What is on file stays there whatever happens to the sketch. -/
theorem Filed.retain (filed : sp.Filed sk) (retains : sk.Retains sk') : sp.Filed sk' :=
  ⟨fun c hc => (filed.hosted c hc).imp_right fun traces => traces.retain retains, filed.sorted⟩

/-- An operation on a space and the sketch keeps what is on file. -/
structure Files (sp : Space α) (sk : Sketch α) (sp' : Space α) (sk' : Sketch α) : Prop where
  index : sp'.index = sp.index
  idle : sp.inTransaction = false → sp'.inTransaction = false
  filed : sp.Filed sk → sp'.Filed sk'
  sketch : sk.Retains sk'

namespace Files

theorem trans (h₁ : Files sp sk sp' sk') (h₂ : Files sp' sk' sp'' sk'') : Files sp sk sp'' sk'' :=
  ⟨h₂.index.trans h₁.index, h₂.idle ∘ h₁.idle, h₂.filed ∘ h₁.filed, h₁.sketch.trans h₂.sketch⟩

/-- Constraints may be taken out. -/
theorem of_sublist (index : sp'.index = sp.index) (busy : sp'.inTransaction = sp.inTransaction)
    (sub : sp'.constraints.Sublist sp.constraints) (sketch : sk.Retains sk') :
    Files sp sk sp' sk' := by
  refine ⟨index, fun idle => busy.trans idle, fun filed => ⟨fun c hc => ?_, fun idle => ?_⟩, sketch⟩
  · rw [index]
    exact (filed.retain sketch).hosted c (sub.subset hc)
  · exact (filed.sorted (busy.symm.trans idle)).sublist sub

theorem refl (sp : Space α) (sk : Sketch α) : Files sp sk sp sk :=
  of_sublist rfl rfl (.refl _) (.refl sk)

end Files

/-- Taking a constraint out leaves the rest on file, in order. -/
theorem removeConstraint_files (sp : Space α) (sk : Sketch α) (id : ConstraintId) :
    Files sp sk (sp.removeConstraint sk id).2.1 (sp.removeConstraint sk id).2.2 := by
  cases found : sp.constraint? id with
  | none =>
    unfold removeConstraint
    rw [found]
    exact .refl sp sk
  | some c =>
    rw [removeConstraint_eq sk found]
    exact .of_sublist rfl rfl List.eraseP_sublist
      ((Sketch.Retains.unregister sk _ _).trans (.undecorate c _))

/-- What is taken out was created on the sketch. -/
theorem traces_removeConstraint (filed : sp.Filed sk)
    (removed : (sp.removeConstraint sk id).1 = .ok c) : sk.Traces c := by
  cases found : sp.constraint? id with
  | none =>
    unfold removeConstraint at removed
    rw [found] at removed
    simp at removed
  | some d =>
    rw [removeConstraint_eq sk found] at removed
    cases removed
    exact (filed.hosted d (constraint?_some found).1).2.redress none none

theorem removeAll_files : ∀ (ids : List ConstraintId) (sp : Space α) (sk : Sketch α),
    Files sp sk (sp.removeAll sk ids).1 (sp.removeAll sk ids).2
  | [], sp, sk => .refl sp sk
  | id :: ids, sp, sk => (removeConstraint_files sp sk id).trans (removeAll_files ids _ _)

theorem clear_files (sp : Space α) (sk : Sketch α) : Files sp sk (sp.clear sk).1 (sp.clear sk).2 :=
  (removeAll_files _ sp sk).trans (.of_sublist rfl rfl (.refl _) (.refl _))

/-- What was arranged is on file, whether it was sorted before or not. -/
theorem filed_arranged (hosted : ∀ c ∈ sp.constraints, c.space = some sp.index ∧ sk.Traces c)
    (dragged : Option EntityId) (interactive : List Handle) :
    (sp.arranged dragged interactive).Filed sk :=
  ⟨fun c hc => hosted c (mem_sortConstraints.mp hc), fun _ => sorted_sortConstraints sp.constraints⟩

/-- Sorting puts the constraints of a space in order that has just left a transaction. -/
theorem arranged_files (sp : Space α) (sk : Sketch α) (dragged : Option EntityId)
    (interactive : List Handle) : Files sp sk (sp.arranged dragged interactive) sk :=
  ⟨rfl, id, fun filed => filed_arranged filed.hosted dragged interactive, .refl sk⟩

section Prepare

variable [Zero α]

/-- Building numbers parameters and loads a problem, and leaves the entities. -/
theorem build_frame (sp : Space α) (sk : Sketch α) : ∃ params problem store,
    (sp.build sk).2 = ({ sp with params, problem }, { sk with store }) := by
  obtain ⟨params, store, numbered, _⟩ := number_ok sp sk
  obtain ⟨problem, eq⟩ := exists_loadEquations { sp with params } { sk with store }
  unfold build
  rw [numbered]
  exact ⟨params, problem, store, congrArg (·, _) eq⟩

/-- Building is not about the constraints. -/
theorem build_files (sp : Space α) (sk : Sketch α) :
    Files sp sk (sp.build sk).2.1 (sp.build sk).2.2 := by
  obtain ⟨params, problem, store, eq⟩ := build_frame sp sk
  rw [eq]
  exact .of_sublist rfl rfl (.refl _) (.of_store rfl)

/-- Preparing sorts and builds, or does nothing. -/
theorem prepare_files (sp : Space α) (sk : Sketch α) (dragged : Option EntityId) (force : Bool) :
    Files sp sk (sp.prepare sk dragged force).2.1 (sp.prepare sk dragged force).2.2 := by
  cases dragged with
  | none =>
    rw [prepare_none]
    exact (arranged_files sp sk none []).trans (build_files _ sk)
  | some id =>
    rw [prepare_some]
    split
    next => exact .refl sp sk
    next =>
      split
      next => exact arranged_files sp sk _ []
      next e _ => exact (arranged_files sp sk _ e.shape.params).trans (build_files _ sk)

/-- Preparing for no entity sorts in any case. -/
theorem filed_prepare_none (hosted : ∀ c ∈ sp.constraints, c.space = some sp.index ∧ sk.Traces c)
    (force : Bool) : (sp.prepare sk none force).2.1.Filed (sp.prepare sk none force).2.2 := by
  rw [prepare_none]
  exact (build_files _ sk).filed (filed_arranged hosted none [])

end Prepare

section Solve

variable [Zero α] [One α] [Add α] [Sub α] [Mul α] [Div α] [Neg α] [LT α] [LE α] [BEq α]
variable [DecidableLT α] [DecidableLE α] [Elementary α]

theorem solve_files (sp : Space α) (sk : Sketch α) (rough : Bool) :
    Files sp sk (sp.solve sk rough).2.1 (sp.solve sk rough).2.2 := by
  have frame := solve_frame sp sk rough
  refine .of_sublist ?_ ?_ ?_ (.of_store frame.sketch)
  · rw [frame.space]
  · rw [frame.space]
  · rw [frame.space]

/-- Ending a transaction leaves the space sorted, also when it cannot be solved. -/
theorem finishTransaction_files (sp : Space α) (sk : Sketch α) :
    Files sp sk (sp.finishTransaction sk).2.1 (sp.finishTransaction sk).2.2 ∧
      (sp.finishTransaction sk).2.1.inTransaction = false := by
  let opened : Space α := { sp with inTransaction := false }
  have prepared := prepare_files opened sk none true
  have arranged : Files sp sk (opened.prepare sk none true).2.1 (opened.prepare sk none true).2.2 :=
    ⟨prepared.index, fun _ => prepared.idle rfl, fun filed =>
      have hosted : ∀ c ∈ opened.constraints, c.space = some opened.index ∧ sk.Traces c :=
        filed.hosted
      filed_prepare_none hosted true, prepared.sketch⟩
  have idle := prepared.idle rfl
  unfold finishTransaction
  split
  next eq =>
    rw [eq] at arranged idle
    exact ⟨arranged, idle⟩
  next sp₁ sk₁ eq =>
    rw [eq] at arranged idle
    have solved := solve_files sp₁ sk₁ false
    exact ⟨arranged.trans solved, solved.idle idle⟩

/-- What is rejected is taken out, then the rest is built and solved. -/
theorem reject_files (sp : Space α) (sk : Sketch α) (id : ConstraintId) (cause : SolveFailure α) :
    Files sp sk (sp.reject sk id cause).2.1 (sp.reject sk id cause).2.2 := by
  have marked : Files sp sk { sp with conflicting := id :: sp.conflicting } sk :=
    .of_sublist rfl rfl (.refl _) (.refl sk)
  have removed := marked.trans (removeConstraint_files _ sk id)
  unfold reject
  split
  next eq =>
    rw [eq] at removed
    exact removed
  next sp₁ sk₁ eq =>
    rw [eq] at removed
    have built := removed.trans (build_files sp₁ sk₁)
    split
    next eq' =>
      rw [eq'] at built
      exact built
    next sp₂ sk₂ eq' =>
      rw [eq'] at built
      exact built.trans (solve_files sp₂ sk₂ false)

/-- **What a space is given is on file, too**, unless it is rejected. -/
theorem addConstraint_files (sp : Space α) (sk : Sketch α) (traces : sk.Traces c) :
    Files sp sk (sp.addConstraint sk c).2.1 (sp.addConstraint sk c).2.2 := by
  let hosting : Space α := { sp with constraints := sp.constraints ++ [sp.hostedBy c] }
  have hosted : sp.Filed sk →
      ∀ d ∈ hosting.constraints, d.space = some sp.index ∧ sk.Traces d := by
    intro filed d hd
    rcases List.mem_append.mp hd with old | new
    · exact filed.hosted d old
    · rw [List.mem_singleton.mp new]
      exact ⟨rfl, traces.redress c.decoration (some sp.index)⟩
  have register : ∀ (sp' : Space α) {sk' : Sketch α}, sk.Retains sk' →
      Files sp' sk' sp' (sk'.register c.id c.entities) := fun sp' sk' retains =>
    .of_sublist rfl rfl (.refl _) (.register (traces.retain retains).numbered c.entities)
  have prepared := prepare_files hosting sk none true
  -- with the new constraint at its end the list is not sorted, until the space is prepared
  have arranged : Files sp sk (hosting.prepare sk none true).2.1
      (hosting.prepare sk none true).2.2 :=
    ⟨prepared.index, prepared.idle, fun filed => filed_prepare_none (hosted filed) true,
      prepared.sketch⟩
  unfold addConstraint
  simp only
  split
  next busy =>
    have waiting : Files sp sk hosting sk := by
      refine ⟨rfl, id, fun filed => ⟨hosted filed, fun idle => ?_⟩, .refl sk⟩
      exact absurd (busy.symm.trans idle) Bool.noConfusion
    exact waiting.trans (register _ (.refl sk))
  next =>
    split
    next e sp₁ sk₁ eq =>
      have eq : hosting.prepare sk none true = (.error e, sp₁, sk₁) := eq
      rw [eq] at arranged
      exact arranged
    next sp₁ sk₁ eq =>
      have eq : hosting.prepare sk none true = (.ok (), sp₁, sk₁) := eq
      rw [eq] at arranged
      have solved := arranged.trans (solve_files sp₁ sk₁ false)
      split
      next sp₂ sk₂ eq' =>
        rw [eq'] at solved
        exact solved.trans (register sp₂ solved.sketch)
      next sp₂ sk₂ eq' =>
        rw [eq'] at solved
        exact solved.trans (reject_files sp₂ sk₂ c.id _)

end Solve

end Space

end SketchSolver
