import SketchSolver.Proofs.Space.Outcomes

/-!
# What a space keeps

Whatever an operation on a space yields, the space puts off solving afterwards if and only if
it did before, and as long as constraints that fit are added it stays regular: its
constraints fit their kinds, and all of them take part. Neither asks for distinct ids or for
a problem that is loaded, so both hold of every space that operations can lead to.

Only the end of a transaction changes whether solving is put off. It does so in any case,
before it prepares the space, and thus also when it fails (`finishTransaction_kept`).

That all constraints take part needs a reason only where one is rejected. Its id is put into
the set of those that take no part, and the removal that follows takes it out again. Between
the two the space is not regular, but nothing is solved there. In a space that holds another
constraint with the same id the removal would take that one, yet the set is empty again all
the same.

The module looks at the result of an operation and not at its outcome, hence it does not use
the outcomes of `Space.Outcomes`. Sessions need both: what is kept always, in order to speak
of all spaces, and what the outcome was, in order to speak of one.
-/

namespace SketchSolver.Space

variable {α : Type} {sp sp' sp'' : Space α} {sk : Sketch α}

/-- The space puts off solving as before, and is regular if it was. -/
structure Kept (sp sp' : Space α) : Prop where
  inTransaction : sp'.inTransaction = sp.inTransaction
  regular : sp.Regular → sp'.Regular

namespace Kept

theorem refl (sp : Space α) : Kept sp sp := ⟨rfl, id⟩

theorem trans (h₁ : Kept sp sp') (h₂ : Kept sp' sp'') : Kept sp sp'' :=
  ⟨h₂.inTransaction.trans h₁.inTransaction, h₂.regular ∘ h₁.regular⟩

/-- What is hosted and what takes part matters, and nothing else. -/
theorem of_constraints (inTransaction : sp'.inTransaction = sp.inTransaction)
    (constraints : ∀ c ∈ sp'.constraints, c ∈ sp.constraints)
    (conflicting : ∀ id ∈ sp'.conflicting, id ∈ sp.conflicting) : Kept sp sp' := by
  refine ⟨inTransaction, fun regular => ⟨fun c hc => regular.fits c (constraints c hc), ?_⟩⟩
  refine List.eq_nil_iff_forall_not_mem.mpr fun id mem => ?_
  have marked := conflicting id mem
  rw [regular.unmarked] at marked
  exact absurd marked List.not_mem_nil

end Kept

/-! ## Removing -/

theorem removeConstraint_kept (sp : Space α) (sk : Sketch α) (id : ConstraintId) :
    Kept sp (sp.removeConstraint sk id).2.1 := by
  cases found : sp.constraint? id with
  | none =>
    unfold removeConstraint
    rw [found]
    exact .refl sp
  | some c =>
    rw [removeConstraint_eq sk found]
    exact .of_constraints rfl (fun c hc => List.mem_of_mem_eraseP hc)
      fun id mem => (List.mem_filter.mp mem).1

theorem removeAll_kept : ∀ (ids : List ConstraintId) (sp : Space α) (sk : Sketch α),
    Kept sp (sp.removeAll sk ids).1
  | [], sp, _ => .refl sp
  | id :: ids, sp, sk =>
    (removeConstraint_kept sp sk id).trans (removeAll_kept ids _ _)

theorem clear_kept (sp : Space α) (sk : Sketch α) : Kept sp (sp.clear sk).1 :=
  (removeAll_kept _ sp sk).trans (.of_constraints rfl (fun _ hc => hc) fun _ mem => mem)

/-! ## Preparing -/

variable [Zero α]

theorem exists_loadEquations (sp : Space α) (sk : Sketch α) :
    ∃ problem, (sp.loadEquations sk).2 = { sp with problem } := by
  unfold loadEquations
  split
  next => exact ⟨sp.problem, rfl⟩
  next =>
    split
    next => exact ⟨_, rfl⟩
    next => exact ⟨_, rfl⟩

/-- Numbering changes the list of parameters alone, and loading the problem alone. -/
theorem exists_build (sp : Space α) (sk : Sketch α) :
    ∃ params problem, (sp.build sk).2.1 = { sp with params, problem } := by
  have numbers : ∃ params, (sp.number sk).2.1 = { sp with params } := by
    unfold number
    simp only
    split
    next => exact ⟨_, rfl⟩
    next => exact ⟨_, rfl⟩
  obtain ⟨params, number⟩ := numbers
  unfold build
  split
  next eq =>
    rw [eq] at number
    exact ⟨params, sp.problem, number⟩
  next sp₁ sk₁ eq =>
    rw [eq] at number
    simp only at number
    subst number
    obtain ⟨problem, loaded⟩ := exists_loadEquations { sp with params } sk₁
    exact ⟨params, problem, loaded⟩

theorem build_kept (sp : Space α) (sk : Sketch α) : Kept sp (sp.build sk).2.1 := by
  obtain ⟨params, problem, eq⟩ := exists_build sp sk
  rw [eq]
  exact .of_constraints rfl (fun _ hc => hc) fun _ mem => mem

omit [Zero α] in
theorem arranged_kept (sp : Space α) (dragged : Option EntityId) (interactive : List Handle) :
    Kept sp (sp.arranged dragged interactive) :=
  ⟨rfl, fun regular => regular.arranged dragged interactive⟩

/-- Preparing keeps what a space has, also when the entity is missing. -/
theorem prepare_kept (sp : Space α) (sk : Sketch α) (dragged : Option EntityId) (force : Bool) :
    Kept sp (sp.prepare sk dragged force).2.1 := by
  cases dragged with
  | none =>
    rw [prepare_none]
    exact (arranged_kept sp none []).trans (build_kept _ sk)
  | some id =>
    rw [prepare_some]
    split
    next => exact .refl sp
    next =>
      split
      next => exact arranged_kept sp (some id) []
      next e _ => exact (arranged_kept sp (some id) e.shape.params).trans (build_kept _ sk)

/-! ## Solving -/

variable [One α] [Add α] [Sub α] [Mul α] [Div α] [Neg α] [LT α] [LE α] [BEq α]
variable [DecidableLT α] [DecidableLE α] [Elementary α]

theorem solve_kept (sp : Space α) (sk : Sketch α) (rough : Bool) :
    Kept sp (sp.solve sk rough).2.1 := by
  rw [(solve_frame sp sk rough).space]
  exact .of_constraints rfl (fun _ hc => hc) fun _ mem => mem

theorem solveNow_kept (sp : Space α) (sk : Sketch α) (rough : Bool) :
    Kept sp (sp.solveNow sk rough).2.1 := solve_kept sp sk rough

/-- **A space whose transaction has ended puts off nothing**, whatever became of its solve. -/
theorem finishTransaction_kept (sp : Space α) (sk : Sketch α) :
    Kept { sp with inTransaction := false } (sp.finishTransaction sk).2.1 := by
  have prepared := prepare_kept { sp with inTransaction := false } sk none true
  unfold finishTransaction
  split
  next eq =>
    rw [eq] at prepared
    exact prepared
  next sp₁ sk₁ eq =>
    rw [eq] at prepared
    exact prepared.trans (solveNow_kept sp₁ sk₁ false)

/-! ## Adding -/

/-- Taking a constraint out again leaves nothing marked. -/
theorem reject_kept {id : ConstraintId} (sk : Sketch α) (cause : SolveFailure α)
    (hosted : sp.contains id = true) : Kept sp (sp.reject sk id cause).2.1 := by
  -- it is marked and then removed, which takes the mark away
  obtain ⟨c, found⟩ := Option.isSome_iff_exists.mp hosted
  have found' : ({ sp with conflicting := id :: sp.conflicting } : Space α).constraint? id = some c :=
    found
  unfold reject
  rw [removeConstraint_eq sk found']
  simp only
  have removed : Kept sp { sp with
      constraints := sp.constraints.eraseP fun c => c.id = id
      conflicting := (id :: sp.conflicting).filter (· ≠ id) } := by
    refine .of_constraints rfl (fun c hc => List.mem_of_mem_eraseP hc) fun other mem => ?_
    obtain ⟨mem, ne⟩ := List.mem_filter.mp mem
    exact (List.mem_cons.mp mem).resolve_left (by simpa using ne)
  refine removed.trans ?_
  generalize (Constraint.undecorate c (sk.unregister id c.entities)).2 = sk₁
  generalize ({ sp with
      constraints := sp.constraints.eraseP fun c => c.id = id
      conflicting := (id :: sp.conflicting).filter (· ≠ id) } : Space α) = sp₁
  have built := build_kept sp₁ sk₁
  split
  next eq =>
    rw [eq] at built
    exact built
  next sp₂ sk₂ eq =>
    rw [eq] at built
    exact built.trans (solve_kept sp₂ sk₂ false)

/-- A constraint that is hosted is so after preparing and solving. -/
theorem contains_solve_prepare {id : ConstraintId} (hosted : sp.contains id = true)
    (sk sk₁ : Sketch α) :
    ((sp.prepare sk none true).2.1.solve sk₁ false).2.1.contains id = true := by
  obtain ⟨c, hc, same⟩ := constraint?_isSome.mp hosted
  rw [prepare_none, (solve_frame _ sk₁ false).space]
  obtain ⟨params, problem, eq⟩ := exists_build (sp.arranged none []) sk
  rw [eq]
  exact constraint?_isSome.mpr ⟨c, mem_sortConstraints.mpr hc, same⟩

/-- **A space to which a constraint was added is as if it had hosted it before**, whether it is accepted,
rejected or put off. -/
theorem addConstraint_kept (sp : Space α) (sk : Sketch α) (c : Constraint) :
    Kept { sp with constraints := sp.constraints ++ [sp.hostedBy c] }
      (sp.addConstraint sk c).2.1 := by
  have hosted : ({ sp with constraints := sp.constraints ++ [sp.hostedBy c] } :
      Space α).contains c.id = true :=
    constraint?_isSome.mpr ⟨_, List.mem_append_right _ List.mem_cons_self, rfl⟩
  unfold addConstraint
  simp only
  split
  next => exact .refl _
  next =>
    -- the constraint is hosted until it is taken out, so a rejection finds it
    have prepared := prepare_kept
      { sp with constraints := sp.constraints ++ [sp.hostedBy c] } sk none true
    have still := contains_solve_prepare hosted sk
    unfold hostedBy at prepared still
    split
    next eq =>
      rw [eq] at prepared
      exact prepared
    next sp₁ sk₁ eq =>
      rw [eq] at prepared still
      have solved := prepared.trans (solve_kept sp₁ sk₁ false)
      have still := still sk₁
      simp only at still
      split
      next eq' =>
        rw [eq'] at solved
        exact solved
      next cause sp₂ sk₂ eq' =>
        rw [eq'] at solved still
        exact solved.trans (reject_kept sk₂ cause still)

end SketchSolver.Space
