import SketchSolver.Proofs.Problem.ManyUnknowns
import SketchSolver.Proofs.Session.Matching

/-!
# Spaces take turns

A session is solved space by space. When a space has had its turn, what its
constraints demand holds; a later turn may move parameters that both spaces read,
and then it need not hold any more (`not_satisfied_tornSpaces`). What does hold in
the end are the demands on parameters that no later space reads
(`satisfied_of_solve_prepared`).

The turns of preparing come before: the problem of a space stays ready for its solve
while later spaces number their parameters, as long as what they share is drawn
(`ready_onEach`). The list of a space is what it numbers; a drawn parameter has the same
number in every list, and one that is not drawn is in no list but its own, so no number is
overwritten by another.

Then come the turns of solving. A turn moves unknowns of its own problem, and they are
parameters that its constraints read (`Loaded.needed`, `Loaded.value`). It writes no id, so
the problem of a space is still ready when its own turn comes, whatever happened before
(`ids_onEach_solve`). A solve that succeeds satisfies all its equations, and these are the
demands of the hosted constraints (`Loaded.satisfied`).

Every constraint must read two different parameters. Its demands then mention several, or
set two parameters equal, so none of them is solved alone, and there is no limit to their
number; a session with more single unknowns than there are group numbers would be another
matter. Constraints are such unless all their entities are made of one and the same
parameter.

That all spaces are satisfied in the end is not to be had: nothing compares constraints of
different spaces.
-/

namespace SketchSolver

variable {α : Type}

/-- What a varied constraint demands is varied, or that two parameters are equal. -/
theorem Constraint.varied_of_mem_demands {c : Constraint} (varied : c.Varied) {e : Expr α}
    (mem : e ∈ c.demands) (other : e.paramDifference? = none) : e.Varied := by
  obtain ⟨a, ha, b, hb, ne⟩ := varied
  obtain ⟨es, eq, mem⟩ := exists_residuals_of_mem_demands mem
  have all := Kind.mentions_all_of_residuals? eq e mem other
  exact ⟨a, all a ha, b, all b hb, ne⟩

variable [Zero α]

/-- A problem is ready as long as the ids of its own parameters stay. -/
theorem Problem.Ready.of_ids {p : Problem α} {s t : Store α} (ready : p.Ready s)
    (ids : ∀ h ∈ p.params.toList, t.id h = s.id h) : p.Ready t :=
  ⟨ready.sorted.congr ids, fun h mem => by rw [ids h mem]; exact ready.assigned h mem,
    ready.listed⟩

namespace Space

variable {sp sp' tp : Space α} {sk sk' sk'' : Sketch α} {h : Handle}

/-- `sp'` is `sp` with the demands of its constraints loaded as its problem. -/
structure Loaded (sp sp' : Space α) : Prop where
  settings : sp'.problem.settings = sp.problem.settings
  demands : ∀ c ∈ sp.constraints, ∀ e ∈ (c.demands : List (Expr α)),
    ∃ e' ∈ sp'.problem.equations.toList, e'.expr = e
  varied : (∀ c ∈ sp.constraints, c.Varied) →
    ∀ e ∈ sp'.problem.equations.toList, e.expr.paramDifference? = none → e.expr.Varied
  needed : ∀ h ∈ sp'.problem.params.toList, h ∈ sp.hostedParams

/-- A space that was built has the demands of its constraints for equations. -/
theorem Built.loaded (built : Built (sp.arranged none []) sk sp' sk') (regular : sp.Regular) :
    Loaded sp sp' := by
  have regular' := regular.arranged none []
  have fits : ∀ c ∈ (sp.arranged none []).valid, c.Fits :=
    fun c hc => regular'.fits c (valid_sub hc)
  obtain ⟨exprs, _⟩ := built.demands fits
  rw [regular'.valid] at exprs
  have sorted : ∀ c, c ∈ (sp.arranged none []).constraints ↔ c ∈ sp.constraints :=
    fun c => mem_sortConstraints
  refine ⟨built.settings, fun c hc e he => ?_, fun varied e he other => ?_, fun h mem => ?_⟩
  · have mem : e ∈ sp'.problem.equations.toList.map (·.expr) := by
      rw [exprs]
      exact List.mem_flatMap.mpr ⟨c, (sorted c).mpr hc, he⟩
    exact List.mem_map.mp mem
  · have mem : e.expr ∈ (sp.arranged none []).constraints.flatMap (·.demands) :=
      exprs ▸ List.mem_map_of_mem he
    obtain ⟨c, hc, demanded⟩ := List.mem_flatMap.mp mem
    exact c.varied_of_mem_demands (varied c ((sorted c).mp hc)) demanded other
  · obtain ⟨c, hc, hh⟩ := mem_mentioned exprs ((built.mem_needed fits).mp mem)
    exact List.mem_flatMap.mpr ⟨c, (sorted c).mp hc, hh⟩

/-- Work on other spaces keeps the ids of what was numbered, if they share drawn parameters alone. -/
theorem Built.ids_of_confined {ps : List Handle} (built : Built sp sk sp' sk')
    (confined : sk'.Confined ps sk'')
    (shared : ∀ h ∈ sp.hostedParams, h ∈ ps → h ∈ sk.params) :
    ∀ h ∈ sp.hostedParams, sk''.store.id h = sk'.store.id h := by
  have params : sk'.params = sk.params := by
    rw [built.sketch]
    rfl
  intro h mem
  by_cases drawn : h ∈ sk.params
  · -- drawn parameters have the same number in all spaces
    have before := built.numbered.id_eq_idxOf built.params drawn
    have after := confined.drawn
    rw [params] at after
    rcases after with same | anew
    · exact same h drawn
    · rw [anew h drawn, before]
  · exact confined.ids h (by rwa [params]) fun other => drawn (shared h mem other)

section Solve

variable [One α] [Add α] [Sub α] [Mul α] [Div α] [Neg α] [LT α] [LE α] [BEq α]
variable [DecidableLT α] [DecidableLE α] [Elementary α] {rough : Bool} {report : Report}

/-- A turn that succeeds is a solve of the loaded problem. -/
theorem solveNow_ok (solved : sp.solveNow sk rough = (.ok report, sp', sk')) :
    ∃ problem, sp.problem.solve rough sk.store = (.ok report, problem, sk'.store) := by
  unfold solveNow solve at solved
  simp only at solved
  cases eq : sp.problem.solve rough sk.store with
  | mk result rest =>
    obtain ⟨problem, store⟩ := rest
    rw [eq] at solved
    cases result with
    | error e => simp [Except.mapError] at solved
    | ok report' =>
      simp only [Except.mapError, Prod.mk.injEq, Except.ok.injEq] at solved
      obtain ⟨rfl, _, rfl⟩ := solved
      exact ⟨problem, rfl⟩

/-- **After a turn that succeeds, what the constraints of the space demand holds.** -/
theorem Loaded.satisfied (loaded : Loaded tp sp) (varied : ∀ c ∈ tp.constraints, c.Varied)
    (ready : sp.problem.Ready sk.store) (solved : sp.solveNow sk rough = (.ok report, sp', sk')) :
    ∀ c ∈ tp.constraints, ∀ e ∈ (c.demands : List (Expr α)),
      ({ expr := e } : Equation α).Satisfied (tp.problem.settings.tolerance rough) sk'.store := by
  obtain ⟨problem, solved⟩ := solveNow_ok solved
  intro c hc e he
  obtain ⟨e', he', rfl⟩ := loaded.demands c hc e he
  rw [← loaded.settings]
  exact satisfied_of_varied ready (loaded.varied varied) solved e' he'

/-- A turn that succeeds moves parameters of the space alone. -/
theorem Loaded.value (loaded : Loaded tp sp)
    (solved : sp.solveNow sk rough = (.ok report, sp', sk')) (away : h ∉ tp.hostedParams) :
    sk'.store.value h = sk.store.value h := by
  obtain ⟨problem, solved⟩ := solveNow_ok solved
  have frame := Problem.solve_frame sp.problem rough sk.store
  rw [solved] at frame
  exact frame.store.value fun mem => away (loaded.needed h mem)

end Solve

end Space

namespace Session

open Space (Worked Loaded Built)

variable {sp : Space α} {sk : Sketch α} {h : Handle}

/-! ## Turns of any kind -/

section OnEach

variable {β : Type} {act : SpaceAction α β}

omit [Zero α] in
/-- Turns may be cut anywhere: the later spaces start from what the earlier ones left. -/
theorem onEach_append (act : SpaceAction α β) : ∀ (xs ys : List (Space α)) (sk : Sketch α),
    (onEach act (xs ++ ys) sk).2.2 = (onEach act ys (onEach act xs sk).2.2).2.2
  | [], _, _ => rfl
  | sp :: xs, ys, sk => by
    rw [List.cons_append, onEach_cons, onEach_cons]
    exact onEach_append act xs ys _

omit [Zero α] in
/-- When no turn fails, the first one does not, nor does any of the others. -/
theorem onEach_none {rest : List (Space α)} (ok : (onEach act (sp :: rest) sk).1 = none) :
    (∃ b sp' sk', act sp sk = (.ok b, sp', sk')) ∧
      (onEach act rest (act sp sk).2.2).1 = none := by
  unfold onEach at ok
  simp only at ok
  cases eq : act sp sk with
  | mk result rest =>
    rw [eq] at ok
    cases result with
    | error e => simp at ok
    | ok b => exact ⟨⟨b, rest.1, rest.2, rfl⟩, ok⟩

omit [Zero α] in
/-- If no turn fails, none of the later ones does. -/
theorem onEach_append_none : ∀ {xs ys : List (Space α)} {sk : Sketch α},
    (onEach act (xs ++ ys) sk).1 = none → (onEach act ys (onEach act xs sk).2.2).1 = none
  | [], _, _, ok => ok
  | sp :: xs, ys, sk, ok => by
    rw [onEach_cons]
    exact onEach_append_none (onEach_none ok).2

/-- What all turns are confined to. -/
theorem confined_onEach (act : SpaceAction α β) : ∀ {spaces : List (Space α)} (sk : Sketch α),
    (∀ sp ∈ spaces, ∀ sk₁, Worked sp sk₁ (act sp sk₁).2.1 (act sp sk₁).2.2) →
    sk.Confined (spaces.flatMap Space.hostedParams) (onEach act spaces sk).2.2
  | [], sk, _ => .refl _ sk
  | sp :: rest, sk, works => by
    rw [onEach_cons, List.flatMap_cons]
    have first := (works sp List.mem_cons_self sk).confined
    have later := confined_onEach act (act sp sk).2.2 fun tp mem => works tp (List.mem_cons_of_mem _ mem)
    exact (first.mono fun h mem => List.mem_append_left _ mem).trans
      (later.mono fun h mem => List.mem_append_right _ mem)

end OnEach

/-! ## Preparing in turn -/

/-- A regular space can be prepared, and is built then. -/
theorem prepare_built (regular : sp.Regular) (sk : Sketch α) : ∃ sp' sk',
    sp.prepare sk none true = (.ok (), sp', sk') ∧ Built (sp.arranged none []) sk sp' sk' := by
  rw [Space.prepare_none]
  exact Space.build_ok sk fun c hc => (regular.arranged none []).fits c (Space.valid_sub hc)

/-- Preparing is work on the parameters and the problem of the space. -/
theorem prepare_worked (regular : sp.Regular) (sk : Sketch α) :
    Worked sp sk (sp.prepare sk none true).2.1 (sp.prepare sk none true).2.2 :=
  (Space.prepare_outcome regular sk none true).worked

/-- A session whose spaces host regular constraints can always be prepared for no entity. -/
theorem prepare_eq_onEach {s : Session α} (regular : ∀ sp ∈ s.spaces, sp.Regular) :
    s.prepare none true = (.ok (),
      { s with
        spaces := (onEach (fun sp sk => sp.prepare sk none true) s.spaces s.sketch).2.1
        sketch := (onEach (fun sp sk => sp.prepare sk none true) s.spaces s.sketch).2.2 }) := by
  unfold prepare
  simp only
  rw [untilFailure_ok _ (fun sp mem sk => prepare_worked (regular sp mem) sk) fun sp mem sk _ => ?_]
  obtain ⟨sp', sk', prepared, _⟩ := prepare_built (regular sp mem) sk
  rw [prepared]

/-- Preparing loads every space. -/
theorem loaded_onEach : ∀ {spaces : List (Space α)} (sk : Sketch α), (∀ sp ∈ spaces, sp.Regular) →
    List.Forall₂ Loaded spaces (onEach (fun sp sk => sp.prepare sk none true) spaces sk).2.1
  | [], _, _ => .nil
  | sp :: rest, sk, regular => by
    have first := regular sp List.mem_cons_self
    obtain ⟨sp', sk', prepared, built⟩ := prepare_built first sk
    rw [onEach_cons, prepared]
    exact .cons (built.loaded first)
      (loaded_onEach sk' fun tp mem => regular tp (List.mem_cons_of_mem _ mem))

/-- **A prepared space is ready for its solve**, whatever is numbered after it, if later spaces share
drawn parameters alone with it. -/
theorem ready_onEach {post : List (Space α)} : ∀ (pre : List (Space α)) (sk : Sketch α),
    (∀ tp ∈ pre ++ sp :: post, tp.Regular) →
    (∀ h ∈ sp.hostedParams, ∀ tp ∈ post, h ∈ tp.hostedParams → h ∈ sk.params) →
    ∃ pre' sp' post', (onEach (fun sp sk => sp.prepare sk none true) (pre ++ sp :: post) sk).2.1 =
        pre' ++ sp' :: post' ∧
      pre'.length = pre.length ∧ Loaded sp sp' ∧ List.Forall₂ Loaded post post' ∧
      sp'.problem.Ready
        (onEach (fun sp sk => sp.prepare sk none true) (pre ++ sp :: post) sk).2.2.store
  | [], sk, regular, shared => by
    have first := regular sp (List.mem_append_right _ List.mem_cons_self)
    have later : ∀ tp ∈ post, tp.Regular := fun tp mem =>
      regular tp (List.mem_append_right _ (List.mem_cons_of_mem _ mem))
    obtain ⟨sp', sk', prepared, built⟩ := prepare_built first sk
    have loaded := built.loaded first
    have fits : ∀ c ∈ (sp.arranged none []).valid, c.Fits := fun c hc =>
      (first.arranged none []).fits c (Space.valid_sub hc)
    have hosted : ∀ h, h ∈ (sp.arranged none []).hostedParams ↔ h ∈ sp.hostedParams :=
      fun h => Worked.mem_hostedParams (List.mergeSort_perm _ _)
    have confined := confined_onEach (fun sp sk => sp.prepare sk none true) sk'
      fun tp mem sk₁ => prepare_worked (later tp mem) sk₁
    -- spaces that are prepared later write ids, but none that this one depends on
    have ids := built.ids_of_confined confined fun h mem other => by
      obtain ⟨tp, htp, hh⟩ := List.mem_flatMap.mp other
      exact shared h ((hosted h).mp mem) tp htp hh
    rw [List.nil_append, onEach_cons, prepared]
    refine ⟨[], sp', _, rfl, rfl, loaded, loaded_onEach sk' later, ?_⟩
    exact (built.ready fits).of_ids fun h mem => ids h ((hosted h).mpr (loaded.needed h mem))
  | tp :: pre, sk, regular, shared => by
    have first := regular tp List.mem_cons_self
    have params := (prepare_worked first sk).confined.params
    obtain ⟨pre', sp', post', eq, length, loaded, later, ready⟩ :=
      ready_onEach pre (tp.prepare sk none true).2.2
        (fun tp mem => regular tp (List.mem_cons_of_mem _ mem)) (by rw [params]; exact shared)
    rw [List.cons_append, onEach_cons]
    exact ⟨_ :: pre', sp', post', by rw [eq, List.cons_append],
      by rw [List.length_cons, List.length_cons, length], loaded, later, ready⟩

/-! ## Solving in turn -/

section Solve

variable [One α] [Add α] [Sub α] [Mul α] [Div α] [Neg α] [LT α] [LE α] [BEq α]
variable [DecidableLT α] [DecidableLE α] [Elementary α] {rough : Bool}

/-- The values after the first `n` spaces had their turn of a solve. -/
def afterTurns (s : Session α) (rough : Bool) (n : Nat) : Store α :=
  (onEach (fun sp sk => sp.solveNow sk rough) (s.spaces.take n) s.sketch).2.2.store

theorem ids_onEach_solve (rough : Bool) : ∀ (spaces : List (Space α)) (sk : Sketch α) (h : Handle),
    (onEach (fun sp sk => sp.solveNow sk rough) spaces sk).2.2.store.id h = sk.store.id h
  | [], _, _ => rfl
  | sp :: rest, sk, h => by
    rw [onEach_cons, ids_onEach_solve rough rest]
    exact (Space.solveNow_solved sp sk rough).ids h

/-- Turns that succeed move nothing that none of the spaces reads. -/
theorem value_onEach_solve {spaces spaces' : List (Space α)}
    (loaded : List.Forall₂ Loaded spaces spaces') : ∀ {sk : Sketch α},
    (onEach (fun sp sk => sp.solveNow sk rough) spaces' sk).1 = none →
    (∀ sp ∈ spaces, h ∉ sp.hostedParams) →
    (onEach (fun sp sk => sp.solveNow sk rough) spaces' sk).2.2.store.value h = sk.store.value h := by
  induction loaded with
  | nil => exact fun _ _ => rfl
  | cons first _ ih =>
    intro sk ok away
    obtain ⟨⟨report, sp', sk', solved⟩, later⟩ := onEach_none ok
    rw [onEach_cons, ih later fun sp mem => away sp (List.mem_cons_of_mem _ mem), solved]
    exact first.value solved (away _ List.mem_cons_self)

/-- A session that is solved was not locked, and no turn has failed. -/
theorem solve_ok {s s' : Session α} (solved : s.solve rough = (.ok (), s')) :
    (onEach (fun sp sk => sp.solveNow sk rough) s.spaces s.sketch).1 = none ∧
      s'.sketch = (onEach (fun sp sk => sp.solveNow sk rough) s.spaces s.sketch).2.2 := by
  unfold solve at solved
  simp only at solved
  split at solved
  next => simp at solved
  next =>
    generalize onEach (fun sp sk => sp.solveNow sk rough) s.spaces s.sketch = r at solved
    obtain ⟨_ | e, spaces, sketch⟩ := r
    · cases solved
      exact ⟨rfl, rfl⟩
    · cases solved

/-- **When a freshly prepared session is solved, what the constraints of a space demand holds after
the turn of the space**, and in the end as far as no later space reads the parameters. -/
theorem satisfied_of_solve_prepared {s s' : Session α} {i : Nat}
    (regular : ∀ sp ∈ s.spaces, sp.Regular)
    (varied : ∀ sp ∈ s.spaces, ∀ c ∈ sp.constraints, c.Varied) (at' : s.spaces[i]? = some sp)
    (shared : ∀ tp ∈ s.spaces.drop (i + 1), ∀ h ∈ tp.hostedParams, h ∈ sp.hostedParams →
      h ∈ s.sketch.params)
    (solved : (s.prepare none true).2.solve rough = (.ok (), s')) :
    (s.prepare none true).1 = .ok () ∧
      ∀ c ∈ sp.constraints, ∀ e ∈ (c.demands : List (Expr α)),
        ({ expr := e } : Equation α).Satisfied (sp.problem.settings.tolerance rough)
          ((s.prepare none true).2.afterTurns rough (i + 1)) ∧
        ((∀ tp ∈ s.spaces.drop (i + 1), ∀ h ∈ e.params, h ∉ tp.hostedParams) →
          ({ expr := e } : Equation α).Satisfied (sp.problem.settings.tolerance rough)
            s'.sketch.store) := by
  obtain ⟨pre, post, split, rfl, _⟩ := exists_set at'
  have drop : s.spaces.drop (pre.length + 1) = post := by simp [split]
  have first : sp ∈ s.spaces := by simp [split]
  rw [drop] at shared ⊢
  obtain ⟨ok, final⟩ := solve_ok solved
  rw [prepare_eq_onEach regular] at ok final ⊢
  simp only at ok final ⊢
  -- all spaces are prepared first, those before and those after the one in question
  obtain ⟨pre', sp', post', prepared, length, loaded, later, ready⟩ :=
    ready_onEach pre s.sketch (split ▸ regular)
      fun h mem tp htp other => shared tp htp h other mem
  unfold afterTurns
  rw [split] at ok final ⊢
  generalize (onEach (fun sp sk => sp.prepare sk none true) (pre ++ sp :: post) s.sketch).2 = r at *
  obtain ⟨spaces, sk⟩ := r
  simp only at prepared ready ok final ⊢
  subst prepared
  have take : (pre' ++ sp' :: post').take (pre.length + 1) = pre' ++ [sp'] := by
    rw [← length, List.take_length_add_append]
    rfl
  rw [take, onEach_append]
  rw [onEach_append] at final
  obtain ⟨⟨report, sp'', sk', turn⟩, rest⟩ := onEach_none (onEach_append_none ok)
  -- the turns before have moved values only, so the problem is still ready
  have ready' := ready.of_ids fun h _ => ids_onEach_solve rough pre' sk h
  have holds := loaded.satisfied (varied sp first) ready' turn
  rw [onEach_cons, turn] at final ⊢
  rw [turn] at rest
  refine ⟨trivial, fun c hc e he => ⟨holds c hc e he, fun away => ?_⟩⟩
  refine (holds c hc e he).congr fun h mem => ?_
  rw [final]
  exact value_onEach_solve later rest fun tp htp => away tp htp h mem

end Solve

/-- The demand that an end of the segment and the point coincide, as it is created on the sketch. -/
def touchingDemand : Constraint :=
  { id := ⟨2⟩, kind := .coincident, entities := [⟨1⟩, ⟨4⟩], params := [⟨0⟩, ⟨1⟩, ⟨4⟩, ⟨5⟩] }

/-- The first space keeps a segment horizontal, the second one an end of it at a point. -/
def tornSpaces : Session Float :=
  Operation.run [.draw (.segment 0 0 4 3), .draw (.point 1 5), .addSpace,
    .constrain .horizontal [⟨3⟩], .create .coincident [⟨1⟩, ⟨4⟩], .add 1 touchingDemand]
    (Session.create { name := "torn" } Settings.standard)

/-- Each space hosts the constraint that was added to it. -/
theorem constraints_tornSpaces : tornSpaces.spaces.map (·.constraints) =
    [[{ id := ⟨1⟩, kind := .horizontal, entities := [⟨3⟩], params := [⟨0⟩, ⟨1⟩, ⟨2⟩, ⟨3⟩],
        space := some 0 }], [{ touchingDemand with space := some 1 }]] := by
  decide +kernel

theorem solve_tornSpaces : ∃ s', (tornSpaces.prepare none true).2.solve false = (.ok (), s') := by
  have succeeds : ((tornSpaces.prepare none true).2.solve false).1.toOption.isSome = true := by
    decide +kernel
  cases solved : (tornSpaces.prepare none true).2.solve false with
  | mk result s' =>
    rw [solved] at succeeds
    cases result with
    | error e => simp [Except.toOption] at succeeds
    | ok => exact ⟨s', rfl⟩

/-- The second space, which is the last, is satisfied in the end. -/
theorem satisfied_tornSpaces : ∃ sp s', tornSpaces.spaces[1]? = some sp ∧
    (tornSpaces.prepare none true).2.solve false = (.ok (), s') ∧
    sp.constraints = [{ touchingDemand with space := some 1 }] ∧
    ∀ c ∈ sp.constraints, ∀ e ∈ (c.demands : List (Expr Float)),
      ({ expr := e } : Equation Float).Satisfied (sp.problem.settings.tolerance false)
        s'.sketch.store := by
  obtain ⟨s', solved⟩ := solve_tornSpaces
  obtain ⟨first, rest, eq, ofFirst, ofRest⟩ := List.map_eq_cons_iff.mp constraints_tornSpaces
  obtain ⟨second, rest, rfl, ofSecond, ofRest⟩ := List.map_eq_cons_iff.mp ofRest
  obtain rfl := List.map_eq_nil_iff.mp ofRest
  have unmarked : ∀ tp ∈ tornSpaces.spaces, tp.conflicting = [] := by
    have all : tornSpaces.spaces.all (fun tp => decide (tp.conflicting = [])) = true := by
      decide +kernel
    simpa using all
  have hosted : ∀ tp ∈ tornSpaces.spaces, ∀ c ∈ tp.constraints, c.Fits ∧ c.Varied := by
    have all : ∀ cs ∈ tornSpaces.spaces.map (·.constraints), ∀ c ∈ cs, c.Fits ∧ c.Varied := by
      rw [constraints_tornSpaces]
      unfold Constraint.Fits Constraint.Varied
      decide
    exact fun tp mem => all _ (List.mem_map_of_mem mem)
  have at' : tornSpaces.spaces[1]? = some second := by rw [eq]; rfl
  obtain ⟨_, holds⟩ := satisfied_of_solve_prepared
    (fun tp mem => ⟨fun c hc => (hosted tp mem c hc).1, unmarked tp mem⟩)
    (fun tp mem c hc => (hosted tp mem c hc).2) at' (by simp [eq]) solved
  exact ⟨second, s', at', solved, ofSecond, fun c hc e he =>
    (holds c hc e he).2 (by simp [eq])⟩

/-- **A solve that succeeds need not leave all spaces satisfied**: the second space has moved the end of
the segment. -/
theorem not_satisfied_tornSpaces : ∃ s', (tornSpaces.prepare none true).2.solve false = (.ok (), s') ∧
    ∃ sp ∈ tornSpaces.spaces, ∃ c ∈ sp.constraints, ∃ e ∈ (c.demands : List (Expr Float)),
      ¬ ({ expr := e } : Equation Float).Satisfied (sp.problem.settings.tolerance false)
        s'.sketch.store := by
  obtain ⟨s', solved⟩ := solve_tornSpaces
  obtain ⟨first, rest, eq, ofFirst, _⟩ := List.map_eq_cons_iff.mp constraints_tornSpaces
  refine ⟨s', solved, first, eq ▸ List.mem_cons_self, _, ofFirst ▸ List.mem_cons_self,
    .binary .minus (.param ⟨1⟩) (.param ⟨3⟩), List.mem_cons_self, fun level => ?_⟩
  -- one end of the segment is where the point is, the other one is where the segment was
  have final : ((tornSpaces.prepare none true).2.solve false).2 = s' := by rw [solved]
  have high : (s'.sketch.store.value ⟨1⟩ == 5) = true := by
    rw [← final]
    decide +kernel
  have low : (s'.sketch.store.value ⟨3⟩ == 5) = false := by
    rw [← final]
    decide +kernel
  have same : s'.sketch.store.value ⟨1⟩ = s'.sketch.store.value ⟨3⟩ := level
  rw [same, low] at high
  cases high

end Session

end SketchSolver
