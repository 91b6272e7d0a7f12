import SketchSolver.Proofs.Constraint.Demands
import SketchSolver.Proofs.Space.Numbering
import SketchSolver.Proofs.StableSort

/-!
# Building a space

`Space.build` numbers the met parameters and loads the equations of the constraints that take
part. For constraints that fit it always succeeds (`build_ok`), and `Built` says all that it
leaves. `prepare` builds the space with its constraints sorted, unless it has nothing to do
(`prepare_ok`).

Each step of building has an error of its own that cannot come up here. Numbering fails on an
id that is taken, but all met parameters were taken out of every list first. Creating the
equations fails on a constraint with too few parameters for its kind, which a constraint that
fits is not. Loading fails on two parameters with one id, but what the equations mention was
met, and what was met is numbered. So from here on the outcome of `build` is a structure, and
no later module splits its errors.

`Built` is more than an invariant, it determines the result. Two spaces that were built from
the same constraints, on stores that agree about parameters that were not met, are the same
space and have the same ids (`Built.unique`); nothing of what the space had loaded before
shows. That is what comparing a space after a failed attempt with one that never tried rests
on, and a preparation that was skipped with one that was made.

For a later solve it matters that a built space is `Covered`: the parameters that the problem
may write are those of constraints that take part, and the space lists all of these under
their ids. A snapshot saves the parameters of those constraints, and is written back through
that list.
-/

namespace SketchSolver

variable {α : Type} [Zero α]

namespace Problem

variable {s t : Store α}

/-- Adding the parameters of an expression depends on ids, of those listed and those added. -/
theorem addMissing_congr : ∀ {ps : List Handle} {l : ParamList},
    (∀ h, h ∈ l.toList ∨ h ∈ ps → t.id h = s.id h) → addMissing t ps l = addMissing s ps l
  | [], l, _ => rfl
  | p :: ps, l, ids => by
    have listed : ∀ h ∈ l.toList, t.id h = s.id h := fun h mem => ids h (Or.inl mem)
    have idp := ids p (Or.inr List.mem_cons_self)
    have has : l.has t p = l.has s p := by
      unfold ParamList.has ParamList.same? ParamList.byId?
      rw [idp, IdList.find?_congr listed]
    have added : l.add? t p = l.add? s p := by
      unfold ParamList.add? IdList.insert?
      rw [idp, IdList.position_congr listed]
    unfold addMissing
    rw [has, added, idp]
    split
    next => exact addMissing_congr fun h hh => ids h (hh.imp_right (List.mem_cons_of_mem p))
    next =>
      cases eq : l.add? s p with
      | none => rfl
      | some l' =>
        refine addMissing_congr fun h hh => ids h ?_
        rcases hh with mem | mem
        · rcases IdList.mem_of_mem_insert? eq mem with rfl | old
          · exact Or.inr List.mem_cons_self
          · exact Or.inl old
        · exact Or.inr (List.mem_cons_of_mem p mem)

/-- Loading reads the ids of the mentioned and of the dragged parameters alone. -/
theorem load_congr (p : Problem α) {equations : EquationList α} {dragged : List Handle}
    (ids : ∀ h, h ∈ mentioned equations ∨ h ∈ dragged → t.id h = s.id h) :
    p.load t equations dragged = p.load s equations dragged := by
  have added : addMissing t (mentioned equations) IdList.empty =
      addMissing s (mentioned equations) IdList.empty :=
    addMissing_congr fun h hh => ids h (Or.inl (hh.resolve_left List.not_mem_nil))
  have drawn : dragged.map t.id = dragged.map s.id :=
    List.map_congr_left fun h mem => ids h (Or.inr mem)
  unfold mentioned at added
  unfold load
  simp only
  rw [added, drawn]

/-- What loading leaves is determined by the settings, the equations and the ids. -/
theorem load_unique {p q r r' : Problem α} {equations : EquationList α} {dragged : List Handle}
    (settings : q.settings = p.settings)
    (ids : ∀ h, h ∈ mentioned equations ∨ h ∈ dragged → t.id h = s.id h)
    (loaded : p.load s equations dragged = (.ok (), r))
    (loaded' : q.load t equations dragged = (.ok (), r')) : r' = r := by
  rw [load_congr q ids] at loaded'
  unfold load at loaded loaded'
  simp only at loaded loaded'
  split at loaded
  next => simp at loaded
  next added =>
    rw [added] at loaded'
    simp only [Prod.mk.injEq, true_and] at loaded loaded'
    rw [← loaded, ← loaded', settings]

end Problem

namespace Space

variable {sp sp' : Space α} {sk sk' : Sketch α} {h : Handle}

/-- What building leaves: the met parameters are numbered in order, the problem is loaded with the
equations of the constraints that take part, and nothing else has changed. -/
structure Built (sp : Space α) (sk : Sketch α) (sp' : Space α) (sk' : Sketch α) : Prop where
  numbered : Numbered sp'.params sk'.store
  params : sp'.params.toList = (sp.met sk).eraseDups
  store : Store.Renumbered (sp.met sk) sk.store sk'.store
  equations : equationsOf sp.valid = .ok sp'.problem.equations
  problem : sp.problem.load sk'.store sp'.problem.equations sp.interactive =
    (.ok (), sp'.problem)
  space : sp' = { sp with params := sp'.params, problem := sp'.problem }
  sketch : sk' = { sk with store := sk'.store }

omit [Zero α] in
/-- A constraint that takes part is hosted. -/
theorem valid_sub {c : Constraint} (mem : c ∈ sp.valid) : c ∈ sp.constraints :=
  (List.mem_filter.mp mem).1

omit [Zero α] in
/-- What a mentioned parameter is a parameter of. -/
theorem mem_mentioned {equations : EquationList α} {cs : List Constraint}
    (exprs : equations.toList.map (·.expr) = cs.flatMap (·.demands))
    (mem : h ∈ Problem.mentioned equations) : ∃ c ∈ cs, h ∈ c.params := by
  obtain ⟨e, he, hh⟩ := List.mem_flatMap.mp mem
  have : e.expr ∈ cs.flatMap (·.demands) := exprs ▸ List.mem_map_of_mem he
  obtain ⟨c, hc, demanded⟩ := List.mem_flatMap.mp this
  exact ⟨c, hc, Constraint.uses_of_mem_demands demanded h hh⟩

/-- **A space whose constraints fit can always be built.** -/
theorem build_ok (sk : Sketch α) (fits : ∀ c ∈ sp.valid, c.Fits) :
    ∃ sp' sk', sp.build sk = (.ok (), sp', sk') ∧ Built sp sk sp' sk' := by
  obtain ⟨params, store, number, numbered, list, renumbered⟩ := number_ok sp sk
  obtain ⟨equations, eq, _, exprs, _⟩ := equationsOf_ok (α := α) fits
  have own : OwnIds store (Problem.mentioned equations) := by
    refine numbered.own.mono fun h mem => ?_
    -- what an equation mentions is a parameter of its constraint, and so it was met
    obtain ⟨c, hc, hh⟩ := mem_mentioned exprs mem
    rw [list, List.mem_eraseDups]
    exact List.mem_append_right _ (List.mem_flatMap.mpr ⟨c, valid_sub hc, hh⟩)
  obtain ⟨needed, load, _⟩ := Problem.load_ok sp.problem own sp.interactive
  refine ⟨{ sp with params, problem := { sp.problem with
      equations, params := needed, dragged := sp.interactive.map store.id } },
    { sk with store }, ?_, numbered, list, renumbered, eq, load, rfl, rfl⟩
  unfold build
  rw [number]
  simp only
  unfold loadEquations
  have valid : ({ sp with params } : Space α).valid = sp.valid := rfl
  rw [valid, eq]
  simp only
  rw [load]

/-- The parameters that the problem may write are those of constraints that take part, and the space
lists the parameters of all constraints under their ids. -/
structure Covered (sp : Space α) (s : Store α) : Prop where
  numbered : Numbered sp.params s
  hosted : ∀ c ∈ sp.constraints, ∀ h ∈ c.params, h ∈ sp.params.toList
  needed : ∀ h ∈ sp.problem.params.toList, ∃ c ∈ sp.valid, h ∈ c.params

namespace Built

/-- Building leaves the constraints as they are. -/
theorem constraints (built : Built sp sk sp' sk') : sp'.constraints = sp.constraints := by
  rw [built.space]

theorem valid (built : Built sp sk sp' sk') : sp'.valid = sp.valid := by
  rw [built.space]
  rfl

/-- What is met is listed, and nothing else is. -/
theorem mem_params (built : Built sp sk sp' sk') : h ∈ sp'.params.toList ↔ h ∈ sp.met sk := by
  rw [built.params, List.mem_eraseDups]

/-- In particular every parameter of a hosted constraint is. -/
theorem hosted (built : Built sp sk sp' sk') {c : Constraint} (hc : c ∈ sp.constraints)
    (hh : h ∈ c.params) : h ∈ sp'.params.toList := by
  rw [built.mem_params]
  exact List.mem_append_right _ (List.mem_flatMap.mpr ⟨c, hc, hh⟩)

theorem symbol (built : Built sp sk sp' sk') (h : Handle) :
    (sk'.store.get h).symbol = (sk.store.get h).symbol := by
  rw [built.store.get h]

theorem settings (built : Built sp sk sp' sk') :
    sp'.problem.settings = sp.problem.settings := by
  have loaded := built.problem
  unfold Problem.load at loaded
  simp only at loaded
  split at loaded
  next => simp at loaded
  next =>
    simp only [Prod.mk.injEq, true_and] at loaded
    rw [← loaded]

/-- The equations are what the constraints demand, in order. -/
theorem equations_eq (built : Built sp sk sp' sk') (fits : ∀ c ∈ sp.valid, c.Fits) :
    sp'.problem.equations = .ofExprs (sp.valid.flatMap (·.demands)) :=
  Except.ok.inj (built.equations.symm.trans (equationsOf_eq fits))

/-- The equations are what the constraints demand, and none of them is taken. -/
theorem demands (built : Built sp sk sp' sk') (fits : ∀ c ∈ sp.valid, c.Fits) :
    sp'.problem.equations.toList.map (·.expr) = sp.valid.flatMap (·.demands) ∧
      ∀ e ∈ sp'.problem.equations.toList, e.tag = 0 := by
  rw [built.equations_eq fits]
  exact ⟨EquationList.exprs_ofExprs _, EquationList.free_ofExprs _⟩

/-- The mentioned parameters have ids of their own. -/
theorem own (built : Built sp sk sp' sk') (fits : ∀ c ∈ sp.valid, c.Fits) :
    OwnIds sk'.store (Problem.mentioned sp'.problem.equations) := by
  refine built.numbered.own.mono fun h mem => ?_
  obtain ⟨c, hc, hh⟩ := mem_mentioned (built.demands fits).1 mem
  exact built.hosted (valid_sub hc) hh

/-- The problem that was loaded is ready to be solved. -/
theorem ready (built : Built sp sk sp' sk') (fits : ∀ c ∈ sp.valid, c.Fits) :
    sp'.problem.Ready sk'.store := Problem.ready_of_load (built.own fits) built.problem

/-- The problem of a built space lists what its equations mention. -/
theorem mem_needed (built : Built sp sk sp' sk') (fits : ∀ c ∈ sp.valid, c.Fits) :
    h ∈ sp'.problem.params.toList ↔ h ∈ Problem.mentioned sp'.problem.equations := by
  obtain ⟨params, eq, _, mem⟩ := Problem.load_ok sp.problem (built.own fits) sp.interactive
  have same := congrArg (fun r => r.2.params) (eq.symm.trans built.problem)
  simp only at same
  rw [← same]
  exact mem h

theorem covered (built : Built sp sk sp' sk') (fits : ∀ c ∈ sp.valid, c.Fits) :
    Covered sp' sk'.store := by
  refine ⟨built.numbered, fun c hc h hh => ?_, fun h mem => ?_⟩
  · rw [built.constraints] at hc
    exact built.hosted hc hh
  · rw [built.valid]
    exact mem_mentioned (built.demands fits).1 ((built.mem_needed fits).mp mem)

/-- **Building depends on the constraints, the settings and what is met alone.** -/
theorem unique {tp tp' : Space α} {tk tk' : Sketch α} (built : Built sp sk sp' sk')
    (built' : Built tp tk tp' tk')
    (same : tp = { sp with params := tp.params, problem := tp.problem })
    (settings : tp.problem.settings = sp.problem.settings) (params : tk.params = sk.params)
    (fits : ∀ c ∈ sp.valid, c.Fits) (drawn : ∀ h ∈ sp.interactive, h ∈ sp.met sk) :
    tp' = sp' ∧ ∀ h ∈ sp.met sk, tk'.store.id h = sk'.store.id h := by
  have met : tp.met tk = sp.met sk := by
    rw [same]
    unfold met
    rw [params]
  -- the list fixes the ids, those fix the loaded problem, and nothing else is written
  have list : tp'.params = sp'.params := by
    have eq : tp'.params.toList = sp'.params.toList := by rw [built'.params, built.params, met]
    exact congrArg IdList.mk (Array.toList_inj.mp eq)
  have ids : ∀ h ∈ sp.met sk, tk'.store.id h = sk'.store.id h := by
    intro h mem
    have numbered := built'.numbered
    rw [list] at numbered
    exact built.numbered.id_eq numbered (built.mem_params.mpr mem)
  have equations : tp'.problem.equations = sp'.problem.equations := by
    have valid : tp.valid = sp.valid := by
      rw [same]
      rfl
    have eq := built'.equations
    rw [valid, built.equations] at eq
    exact (Except.ok.inj eq).symm
  have interactive : tp.interactive = sp.interactive := by rw [same]
  have problem : tp'.problem = sp'.problem := by
    have loaded := built'.problem
    rw [equations, interactive] at loaded
    refine Problem.load_unique settings (fun h hh => ids h ?_) built.problem loaded
    rcases hh with mem | mem
    · obtain ⟨c, hc, hp⟩ := mem_mentioned (built.demands fits).1 mem
      exact built.mem_params.mp (built.hosted (valid_sub hc) hp)
    · exact drawn h mem
  refine ⟨?_, ids⟩
  rw [built'.space, built.space, same, list, problem]

end Built

/-! ## Preparing -/

/-- The space with its constraints sorted and no parameters, for a dragged entity with the given
parameters. -/
def arranged (sp : Space α) (dragged : Option EntityId) (interactive : List Handle) : Space α :=
  { sp.forgetParams with constraints := sortConstraints sp.constraints, dragged, interactive }

omit [Zero α] in
theorem mem_sortConstraints {cs : List Constraint} {c : Constraint} :
    c ∈ sortConstraints cs ↔ c ∈ cs := List.mem_mergeSort

omit [Zero α] in
/-- Sorting adds no constraint. -/
theorem fits_arranged {dragged : Option EntityId} {interactive : List Handle}
    (fits : ∀ c ∈ sp.constraints, c.Fits) :
    ∀ c ∈ (sp.arranged dragged interactive).valid, c.Fits :=
  fun c hc => fits c (mem_sortConstraints.mp (valid_sub hc))

omit [Zero α] in
/-- Sorting does not change what is met. -/
theorem mem_met_arranged {dragged : Option EntityId} {interactive : List Handle} :
    h ∈ (sp.arranged dragged interactive).met sk ↔ h ∈ sp.met sk := by
  show h ∈ sk.params ++ (sortConstraints sp.constraints).flatMap (·.params) ↔
    h ∈ sk.params ++ sp.constraints.flatMap (·.params)
  simp only [List.mem_append, List.mem_flatMap, mem_sortConstraints]

omit [Zero α] in
theorem sortConstraints_eq_self {cs : List Constraint}
    (sorted : cs.Pairwise fun c d => c.kind.code ≤ d.kind.code) : sortConstraints cs = cs := by
  refine List.mergeSort_of_pairwise (sorted.imp ?_)
  intro c d le
  exact decide_eq_true le

omit [Zero α] in
/-- Sorting sorts, by the codes of the kinds. -/
theorem sorted_sortConstraints (cs : List Constraint) :
    (sortConstraints cs).Pairwise fun c d => c.kind.code ≤ d.kind.code :=
  sorted_mergeSort cs

/-- Without an entity that is dragged preparing builds the space in any case. -/
theorem prepare_none (sp : Space α) (sk : Sketch α) (force : Bool) :
    sp.prepare sk none force = (sp.arranged none []).build sk := by
  unfold prepare
  rw [if_neg (by simp)]
  rfl

/-- A space is prepared by building it, unless it is prepared for the dragged entity already. -/
theorem prepare_ok {dragged : Option EntityId} {force : Bool}
    (due : dragged = none ∨ force = true ∨ sp.dragged ≠ dragged)
    (prepared : sp.prepare sk dragged force = (.ok (), sp', sk')) :
    ∃ interactive, (sp.arranged dragged interactive).build sk = (.ok (), sp', sk') := by
  unfold prepare at prepared
  split at prepared
  next skipped =>
    simp only [Bool.and_eq_true, Bool.not_eq_true', beq_iff_eq] at skipped
    obtain ⟨⟨some, unforced⟩, same⟩ := skipped
    rcases due with rfl | rfl | ne
    · simp at some
    · simp at unforced
    · exact absurd same ne
  next =>
    cases dragged with
    | none => exact ⟨[], prepared⟩
    | some id =>
      simp only at prepared
      split at prepared
      next => simp at prepared
      next e _ => exact ⟨e.shape.params, prepared⟩

/-- **A prepared space is covered.** -/
theorem covered_of_prepare {dragged : Option EntityId} {force : Bool}
    (fits : ∀ c ∈ sp.constraints, c.Fits)
    (due : dragged = none ∨ force = true ∨ sp.dragged ≠ dragged)
    (prepared : sp.prepare sk dragged force = (.ok (), sp', sk')) : Covered sp' sk'.store := by
  obtain ⟨interactive, built⟩ := prepare_ok due prepared
  obtain ⟨sp₁, sk₁, built', spec⟩ := build_ok sk (fits_arranged fits)
  rw [built'] at built
  simp only [Prod.mk.injEq, true_and] at built
  obtain ⟨rfl, rfl⟩ := built
  exact spec.covered (fits_arranged fits)

end Space

end SketchSolver
