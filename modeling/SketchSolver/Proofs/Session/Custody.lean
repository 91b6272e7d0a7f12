import SketchSolver.Proofs.Session.Tidy

/-!
# Constraints change hands

Adding takes a constraint from those that are held. Whether it is accepted, put off or
rejected, the session is tidy afterwards (`Tidy.addToSpace`); a rejected one was never
registered, and gives up its decoration. Taking a constraint out gives it back to those
that are held, without its decoration (`Tidy.detach`). The constraints on an entity that
goes are found in the books, so none is left behind (`Tidy.removeEntity`).

Operations that give out several constraints may fail half-way. What they have taken out
by then is dropped, not given back, so two notions are needed. `Lends` says that some
constraints are ready to be added: the session is tidy when they count as held, and they
carry no decoration. `Yields` says what an operation leaves: on success it lends what it
gives out, and on failure the session is tidy without it. A decoration of a constraint
that is dropped would stay in use for ever, and that is why constraints are lent only
without one.

Each operation is treated as it is defined. The one space that is changed is singled out
of the list (`perm_middle_constraints`), what happened to it is known from the outcome of
an addition (`ledger_of_added`, `index_of_added`) or of a removal, and the ledger of the
sketch is moved along by its own lemmas. Batches, lists of ids and lists of records go by
induction on the list, with `Lends` or `Yields` as the invariant.

Clearing is special. It asks every space for its constraints in turn, the last one first,
and what it takes out is given to nobody. The ledger is followed through both loops
(`ledger_removeAll`, `ledger_clearSpaces`), and at the end nothing is hosted.
-/

namespace SketchSolver.Session

open Space (Added)

variable {α : Type} {s s' : Session α} {held : List Constraint} {sp : Space α} {c : Constraint}
variable {sk : Sketch α} {others : List Constraint} {id : ConstraintId}

/-- The constraints of one space, and then those of the others. -/
theorem perm_middle_constraints (pre post : List (Space α)) (sp : Space α) :
    ((pre ++ sp :: post).flatMap (·.constraints)).Perm
      (sp.constraints ++ (pre ++ post).flatMap (·.constraints)) :=
  List.perm_middle.flatMap_right _

/-- The session is tidy, and among the constraints that are held are some without decorations. -/
structure Lends (s : Session α) (cs held : List Constraint) : Prop where
  tidy : s.Tidy (cs ++ held)
  plain : ∀ c ∈ cs, c.decoration = none

theorem Lends.cons {cs : List Constraint} (lends : s.Lends cs (c :: held))
    (plain : c.decoration = none) : s.Lends (c :: cs) held :=
  ⟨lends.tidy.perm List.perm_middle.symm, List.forall_mem_cons.mpr ⟨plain, lends.plain⟩⟩

/-- What carries no decoration may be forgotten. -/
theorem Lends.drop {cs : List Constraint} (lends : s.Lends cs held) : s.Tidy held :=
  ⟨lends.tidy.ledger.drop_append lends.plain, lends.tidy.placed⟩

/-- An operation that gives out constraints leaves the session tidy. When it fails, they are lost. -/
def Yields {β : Type} (held : List Constraint) (given : β → List Constraint) :
    Except (Failure α) β × Session α → Prop
  | (.ok b, s) => s.Lends (given b) held
  | (.error _, s) => s.Tidy held

/-- Whatever comes of an operation, the session is tidy with regard to what was held before it. -/
theorem Yields.tidy {β : Type} {given : β → List Constraint} {r : Except (Failure α) β × Session α}
    (yields : Yields held given r) : r.2.Tidy held := by
  obtain ⟨_ | b, s⟩ := r
  · exact yields
  · exact yields.drop

/-! ## Adding -/

section Add

variable [Zero α]

/-- Whatever becomes of a constraint that is added to a space, the books are right. -/
theorem ledger_of_added {r : Except (Failure α) Unit × Space α × Sketch α}
    (added : Added sp sk c r) (ledger : sk.Ledger (sp.constraints ++ others) (c :: held)) :
    r.2.2.Ledger (r.2.1.constraints ++ others) held := by
  have host := ledger.host (some sp.index)
  have hosted : ∀ {cs : List Constraint}, cs.Perm (sp.constraints ++ [sp.hostedBy c]) →
      (cs ++ others).Perm (sp.hostedBy c :: (sp.constraints ++ others)) := fun same =>
    (same.append_right others).trans ((List.perm_append_singleton _ _).append_right others)
  cases added with
  | postponed => exact host.perm (hosted (.refl _)) (.refl _)
  | accepted sp' sk' _ constraints _ sketch =>
    exact (host.of_store sketch).perm (hosted constraints) (.refl _)
  | rejected e sp' sk' _ constraints _ sketch =>
    exact (ledger.reject.of_store sketch).perm (constraints.append_right others) (.refl _)

/-- Adding neither moves a space nor marks a constraint. -/
theorem index_of_added {r : Except (Failure α) Unit × Space α × Sketch α}
    (added : Added sp sk c r) :
    r.2.1.index = sp.index ∧ r.2.1.conflicting = sp.conflicting := by
  cases added with
  | postponed => exact ⟨rfl, rfl⟩
  | accepted _ _ index _ conflicting => exact ⟨index, conflicting⟩
  | rejected _ _ _ index _ conflicting => exact ⟨index, conflicting⟩

variable [One α] [Add α] [Sub α] [Mul α] [Div α] [Neg α] [LT α] [LE α] [BEq α]
variable [DecidableLT α] [DecidableLE α] [Elementary α]

namespace Tidy

/-- **Adding a constraint that was held keeps a session tidy.** Where there is no space to add it to, it
must not carry a decoration. -/
theorem addToSpace {index : Nat} (tidy : s.Tidy (c :: held))
    (plain : s.spaces.length ≤ index → c.decoration = none) : (s.addToSpace index c).2.Tidy held := by
  unfold Session.addToSpace Session.space
  cases at' : s.spaces[index]? with
  | none =>
    have missing := plain (List.getElem?_eq_none_iff.mp at')
    exact tidy.drop missing
  | some sp =>
    obtain ⟨pre, post, split, _, set⟩ := exists_set at'
    have mem := List.mem_of_getElem? at'
    have fits := (tidy.ledger.accounts.known c (List.mem_append_right _ List.mem_cons_self)).fits
    have unhosted : ∀ d ∈ sp.constraints, d.id ≠ c.id := fun d hd =>
      tidy.ledger.unhosted d (List.mem_flatMap.mpr ⟨sp, mem, hd⟩)
    have added := Space.addConstraint_outcome (tidy.regular sp mem) s.sketch fits unhosted
    simp only
    generalize sp.addConstraint s.sketch c = r at added
    rw [set]
    have ledger := tidy.ledger
    have placed := tidy.placed
    unfold Session.constraints at ledger
    rw [split] at ledger placed
    obtain ⟨same, unmarked⟩ := index_of_added added
    refine ⟨?_, placed.middle same unmarked fun d hd => ?_⟩
    · have before := ledger.perm (perm_middle_constraints pre post sp).symm (.refl _)
      exact (ledger_of_added added before).perm (perm_middle_constraints pre post r.2.1) (.refl _)
    · rcases hosted_of_added added d hd with old | rfl
      · exact Or.inl old
      · exact Or.inr rfl

/-- Adding one constraint after the other, until one is rejected. The rest is dropped then. -/
theorem addEach : ∀ {cs : List (Nat × Constraint)} {s : Session α},
    s.Lends (cs.map (·.2)) held → (addEach cs s).2.Tidy held
  | [], _, lends => lends.tidy
  | (index, c) :: rest, s, lends => by
    obtain ⟨first, later⟩ := List.forall_mem_cons.mp lends.plain
    have added : (s.addToSpace index c).2.Lends (rest.map (·.2)) held :=
      ⟨addToSpace lends.tidy fun _ => first, later⟩
    unfold Session.addEach
    cases eq : s.addToSpace index c with
    | mk result s₁ =>
      rw [eq] at added
      cases result with
      | error e => exact added.drop
      | ok _ =>
        have ih := addEach added
        simp only
        split
        next eq' =>
          rw [eq'] at ih
          exact ih
        next eq' =>
          rw [eq'] at ih
          exact ih

/-- A batch opens and ends a transaction, and both leave the books as they are. -/
theorem addBatch {cs : List (Nat × Constraint)} (lends : s.Lends (cs.map (·.2)) held) :
    (s.addBatch cs).2.Tidy held := by
  have each := addEach ⟨lends.tidy.startTransaction, lends.plain⟩
  unfold Session.addBatch
  split
  next eq =>
    rw [eq] at each
    exact each.finishTransaction
  next eq =>
    rw [eq] at each
    exact each.finishTransaction

/-- What is lent may be added as a batch to the first space. -/
theorem addConstraints {cs : List Constraint} (lends : s.Lends cs held) :
    (s.addConstraints cs).2.Tidy held := by
  have same : (cs.map fun c => (0, c)).map (·.2) = cs := by simp
  exact addBatch (by rw [same]; exact lends)

omit [Zero α] [One α] [Add α] [Sub α] [Mul α] [Div α] [Neg α] [LT α] [LE α] [BEq α]
  [DecidableLT α] [DecidableLE α] [Elementary α] in
/-- What is created is held. -/
theorem create {kind : Kind} {ids : List EntityId} {sketch : Sketch α} (tidy : s.Tidy held)
    (created : Constraint.create s.sketch kind ids = .ok (c, sketch)) :
    { s with sketch }.Tidy (c :: held) ∧ c.decoration = none := by
  obtain ⟨ledger, plain⟩ := tidy.ledger.create created
  exact ⟨⟨ledger, tidy.placed⟩, plain⟩

/-- A constraint that is created passes through the hands of the caller only in between. -/
theorem constrain (tidy : s.Tidy held) (kind : Kind) (ids : List EntityId) :
    (s.constrain kind ids).2.Tidy held := by
  unfold Session.constrain
  split
  next => exact tidy
  next created =>
    obtain ⟨tidy', plain⟩ := tidy.create created
    exact tidy'.addToSpace fun _ => plain

/-- The decoration is made for the constraint, and goes when it is rejected. -/
theorem constrainDecorated (tidy : s.Tidy held) (kind : Kind) (ids : List EntityId) :
    (s.constrainDecorated kind ids).2.Tidy held := by
  unfold Session.constrainDecorated
  split
  next => exact tidy
  next c sketch created =>
    obtain ⟨tidy', plain⟩ := tidy.create created
    have decorated : { s with sketch := sketch.decorate.2 }.Tidy
        ({ c with decoration := some sketch.decorate.1 } :: held) :=
      ⟨tidy'.ledger.decorate plain, tidy.placed⟩
    -- there is a first space
    exact decorated.addToSpace fun none =>
      absurd (List.length_eq_zero_iff.mp (Nat.le_zero.mp none)) tidy.placed.filled

omit [Zero α] [One α] [Add α] [Sub α] [Mul α] [Div α] [Neg α] [LT α] [LE α] [BEq α]
  [DecidableLT α] [DecidableLE α] [Elementary α] in
/-- What records describe is created, and lent when all of it could be. -/
theorem rebuild : ∀ (records : List Record) {s : Session α} {held : List Constraint},
    s.Tidy held → Yields held (List.map (·.2)) (rebuild records s)
  | [], _, _, tidy => ⟨tidy, fun c hc => absurd hc List.not_mem_nil⟩
  | r :: rest, s, held, tidy => by
    have spaces := tidy.addSpacesUpTo (r.space.getD 0)
    unfold Session.rebuild
    simp only
    cases made : Constraint.ofRecord (s.addSpacesUpTo (r.space.getD 0)).sketch r with
    | error e => exact spaces
    | ok result =>
      obtain ⟨c, sketch⟩ := result
      obtain ⟨kind, created⟩ := exists_create made
      obtain ⟨tidy', plain⟩ := spaces.create created
      have later := rebuild rest tidy'
      simp only
      generalize Session.rebuild rest { s.addSpacesUpTo (r.space.getD 0) with sketch } = r at later
      obtain ⟨result, s₁⟩ := r
      cases result with
      | error e => exact later.drop plain
      | ok cs => exact later.cons plain

/-- Restoring is rebuilding, then adding what was rebuilt as a batch. -/
theorem restore (tidy : s.Tidy held) (records : List Record) :
    (s.restore records).2.Tidy held := by
  have rebuilt := tidy.rebuild records
  unfold Session.restore
  split
  next eq =>
    rw [eq] at rebuilt
    exact rebuilt
  next eq =>
    rw [eq] at rebuilt
    exact addBatch rebuilt

end Tidy

end Add

/-! ## Taking out -/

/-- Where ids differ, the others are those with other ids. -/
theorem perm_cons_filter {cs : List Constraint} (distinct : (cs.map (·.id)).Nodup) (hc : c ∈ cs) :
    cs.Perm (c :: cs.filter fun d => d.id ≠ c.id) := by
  obtain ⟨before, after, split⟩ := List.append_of_mem hc
  rw [split, List.map_append, List.map_cons] at distinct
  obtain ⟨_, later, apart⟩ := List.nodup_append.mp distinct
  have early : ∀ d ∈ before, d.id ≠ c.id := fun d hd =>
    apart d.id (List.mem_map_of_mem hd) c.id List.mem_cons_self
  have late : ∀ d ∈ after, d.id ≠ c.id := fun d hd same =>
    (List.nodup_cons.mp later).1 (same ▸ List.mem_map_of_mem hd)
  rw [split, List.filter_append, List.filter_cons_of_neg (by simp), filter_id_of_absent early,
    filter_id_of_absent late]
  exact List.perm_middle

/-- Dropping an id from every space drops it from all constraints. -/
theorem constraints_dropping (spaces : List (Space α)) (id : ConstraintId) :
    (spaces.map (·.dropping id)).flatMap (·.constraints) =
      (spaces.flatMap (·.constraints)).filter fun c => c.id ≠ id := by
  rw [List.flatMap_map, List.filter_flatMap]
  rfl

namespace Tidy

/-- No id is hosted twice, since all known constraints have ids of their own. -/
theorem ids (tidy : s.Tidy held) : (s.constraints.map (·.id)).Nodup := by
  have ids := tidy.ledger.accounts.ids
  rw [List.map_append] at ids
  exact (List.nodup_append.mp ids).1

/-- **A constraint that is taken out is given back without its decoration**, and the session is tidy.
When it is not there nothing changes. -/
theorem detach (tidy : s.Tidy held) (id : ConstraintId) :
    Yields held (fun c => [c]) (s.detach id) ∧
      (s.detach id).2.constraints = s.constraints.filter (fun c => c.id ≠ id) ∧
      (s.detach id).2.sketch.subtree = s.sketch.subtree := by
  by_cases hosted : ∃ c ∈ s.constraints, c.id = id
  · obtain ⟨c, hc, rfl⟩ := hosted
    -- ids are apart, so taking it out of the space that hosts it is leaving its id out of all
    have eq := detachFrom_eq s.sketch tidy.placed.unmarked tidy.ids hc
    have constraints := constraints_dropping s.spaces c.id
    have released := (tidy.ledger.perm (perm_cons_filter tidy.ids hc).symm (.refl _)).release
    unfold Session.detach
    rw [eq]
    refine ⟨⟨⟨?_, ?_⟩, fun d hd => ?_⟩, constraints, ?_⟩
    · exact released.perm (.of_eq constraints) (.refl _)
    · refine tidy.placed.of_fewer (forall₂_map fun sp => ⟨rfl, fun d hd => ?_, fun nodup => ?_, id⟩)
      · exact (List.mem_filter.mp hd).1
      · exact nodup.sublist (List.filter_sublist.map _)
    · rw [List.mem_singleton.mp hd]
    · exact funext (s.sketch.released_undecorate c).subtree
  · have absent : ∀ c ∈ s.constraints, c.id ≠ id := fun c hc same => hosted ⟨c, hc, same⟩
    have eq : s.detach id = (.error (.constraintNotFound id), s) := by
      unfold Session.detach
      rw [detachFrom_absent s.sketch fun sp mem c hc =>
        absent c (List.mem_flatMap.mpr ⟨sp, mem, hc⟩)]
    rw [eq, filter_id_of_absent absent]
    exact ⟨tidy, rfl, rfl⟩

/-- Constraints are taken out until one is not found. Those before it are lost then. -/
theorem detachEach : ∀ (ids : List ConstraintId) {s : Session α} {held : List Constraint},
    s.Tidy held → Yields held (fun cs => cs) (detachEach ids s)
  | [], _, _, tidy => ⟨tidy, fun c hc => absurd hc List.not_mem_nil⟩
  | id :: ids, s, held, tidy => by
    have first := (tidy.detach id).1
    unfold Session.detachEach
    generalize s.detach id = r at first
    obtain ⟨_ | c, s₁⟩ := r
    · exact first
    · have lends : s₁.Lends [c] held := first
      have later := detachEach ids lends.tidy
      have plain := lends.plain c (List.mem_singleton_self c)
      simp only
      generalize Session.detachEach ids s₁ = r at later
      obtain ⟨_ | cs, s₂⟩ := r
      · exact later.drop plain
      · exact later.cons plain

/-- Taking out all constraints with some ids. -/
theorem foldl_detach : ∀ (ids : List ConstraintId) {s : Session α}, s.Tidy held →
    (ids.foldl (fun s c => (s.detach c).2) s).Tidy held ∧
      (ids.foldl (fun s c => (s.detach c).2) s).constraints =
        s.constraints.filter (fun c => c.id ∉ ids) ∧
      (ids.foldl (fun s c => (s.detach c).2) s).sketch.subtree = s.sketch.subtree
  | [], _, tidy => ⟨tidy, (List.filter_eq_self.mpr fun c _ => by simp).symm, rfl⟩
  | id :: ids, s, tidy => by
    obtain ⟨yields, constraints, subtree⟩ := tidy.detach id
    obtain ⟨tidy', left, same⟩ := foldl_detach ids yields.tidy
    refine ⟨tidy', left.trans ?_, same.trans subtree⟩
    rw [constraints, List.filter_filter]
    exact List.filter_congr fun c _ => by simp [Bool.and_comm]

/-- **When an entity goes, so do all constraints on it and its points.** They are found in the books. -/
theorem removeEntity (tidy : s.Tidy held) (id : EntityId) : (s.removeEntity id).Tidy held := by
  obtain ⟨tidy', left, subtree⟩ := tidy.foldl_detach (s.attached id)
  unfold Session.removeEntity
  split
  next => exact tidy
  next =>
    split
    next => exact tidy
    next =>
      simp only
      generalize (s.attached id).foldl (fun s c => (s.detach c).2) s = s' at tidy' left subtree
      refine ⟨tidy'.ledger.without fun d hd e gone covered => ?_, tidy'.placed⟩
      rw [subtree] at gone covered
      rw [left, List.mem_filter] at hd
      obtain ⟨old, free⟩ := hd
      -- a constraint that is left on what goes would have been among those attached
      refine of_decide_eq_true free (Ascending.mem_ofList.mpr (List.mem_flatMap.mpr ⟨e, gone, ?_⟩))
      exact (tidy.ledger.registers e d.id).mpr ⟨d, old, rfl, covered⟩

/-- Entities go one after the other, each with the constraints on it. -/
theorem foldl_removeEntity : ∀ (ids : List EntityId) {s : Session α}, s.Tidy held →
    (ids.foldl Session.removeEntity s).Tidy held
  | [], _, tidy => tidy
  | id :: ids, _, tidy => foldl_removeEntity ids (tidy.removeEntity id)

variable [Zero α] [One α] [Add α] [Sub α] [Mul α] [Div α] [Neg α] [LT α] [LE α] [BEq α]
variable [DecidableLT α] [DecidableLE α] [Elementary α]

/-- Solving after the removal may fail, and then nothing is given out. -/
theorem removeConstraints (tidy : s.Tidy held) (ids : List ConstraintId) :
    Yields held (fun cs => cs) (s.removeConstraints ids) := by
  have detached := tidy.detachEach ids
  unfold Session.removeConstraints
  generalize Session.detachEach ids s = r at detached
  obtain ⟨_ | removed, s₁⟩ := r
  · exact detached
  · have lends : s₁.Lends removed held := detached
    have solved : s₁.solveFine.2.Lends removed held := ⟨lends.tidy.solveFine, lends.plain⟩
    simp only
    generalize s₁.solveFine = r at solved
    obtain ⟨_ | _, s₂⟩ := r
    · exact solved.drop
    · have refreshed : s₂.refresh.2.Lends removed held := ⟨solved.tidy.refresh, lends.plain⟩
      simp only
      generalize s₂.refresh = r at refreshed
      obtain ⟨_ | _, s₃⟩ := r
      · exact refreshed.drop
      · exact refreshed

/-- Removing entities is a transaction around the removals. -/
theorem removeEntities (tidy : s.Tidy held) (ids : List EntityId) :
    (s.removeEntities ids).2.Tidy held :=
  (tidy.startTransaction.foldl_removeEntity ids).finishTransaction

end Tidy

/-! ## Clearing -/

/-- Taking out the constraints of one space, one after the other, keeps the books right about those
of the other spaces. -/
theorem ledger_removeAll : ∀ (ids : List ConstraintId) (sp : Space α) {sk : Sketch α},
    sp.conflicting = [] → sk.Ledger (sp.constraints ++ others) held →
    (sp.removeAll sk ids).2.Ledger ((sp.removeAll sk ids).1.constraints ++ others) held
  | [], _, _, _, ledger => ledger
  | id :: ids, sp, sk, unmarked, ledger => by
    have distinct : (sp.constraints.map (·.id)).Nodup := by
      have ids := ledger.accounts.ids
      rw [List.append_assoc, List.map_append] at ids
      exact (List.nodup_append.mp ids).1
    unfold Space.removeAll
    cases found : sp.constraint? id with
    | none =>
      have eq : sp.removeConstraint sk id = (.error (.constraintNotFound id), sp, sk) := by
        unfold Space.removeConstraint
        rw [found]
      rw [eq]
      exact ledger_removeAll ids sp unmarked ledger
    | some c =>
      obtain ⟨hc, rfl⟩ := Space.constraint?_some found
      rw [removeConstraint_space unmarked distinct sk found]
      have first := (perm_cons_filter distinct hc).append_right others
      have dropped := (ledger.perm first.symm (.refl _)).release.drop rfl
      exact ledger_removeAll ids (sp.dropping c.id) unmarked dropped

/-- After all spaces are cleared, the books are right about what was not in them. -/
theorem ledger_clearSpaces : ∀ {spaces : List (Space α)} {sk : Sketch α},
    (∀ sp ∈ spaces, sp.conflicting = []) →
    sk.Ledger (spaces.flatMap (·.constraints) ++ others) held →
    (clearSpaces spaces sk).2.Ledger others held
  | [], _, _, ledger => ledger
  | sp :: rest, sk, unmarked, ledger => by
    have distinct : (sp.constraints.map (·.id)).Nodup := by
      have ids := ledger.accounts.ids
      rw [List.flatMap_cons, List.append_assoc, List.append_assoc, List.map_append] at ids
      exact (List.nodup_append.mp ids).1
    have first := unmarked sp List.mem_cons_self
    obtain ⟨sk₁, _, eq, _⟩ := clear_space first distinct sk
    rw [List.flatMap_cons, List.append_assoc] at ledger
    have cleared : sk₁.Ledger (rest.flatMap (·.constraints) ++ others) held := by
      -- removing all its constraints one by one leaves the space with none
      have all := ledger_removeAll (sp.constraints.map (·.id)).reverse sp first ledger
      unfold Space.clear at eq
      simp only [Prod.mk.injEq] at eq
      have nothing : (sp.removeAll sk (sp.constraints.map (·.id)).reverse).1.constraints = [] :=
        congrArg Space.constraints eq.1
      rw [eq.2, nothing] at all
      exact all
    unfold clearSpaces
    rw [eq]
    exact ledger_clearSpaces (fun tp mem => unmarked tp (List.mem_cons_of_mem _ mem)) cleared

/-- A session without constraints is tidy. -/
theorem Tidy.clear (tidy : s.Tidy held) : s.clear.Tidy held := by
  have distinct : ∀ sp ∈ s.spaces, (sp.constraints.map (·.id)).Nodup := fun sp mem =>
    tidy.ids.sublist ((List.sublist_flatten_of_mem (List.mem_map_of_mem mem)).map _)
  obtain ⟨sk', _, eq, _⟩ := clearSpaces_spec s.sketch tidy.placed.unmarked distinct
  have cleared : (clearSpaces s.spaces s.sketch).2.Ledger [] held :=
    ledger_clearSpaces tidy.placed.unmarked
      (tidy.ledger.perm (.of_eq (List.append_nil _)) (.refl _))
  unfold Session.clear
  rw [eq] at cleared ⊢
  refine ⟨?_, tidy.placed.of_fewer (forall₂_map fun sp =>
    ⟨rfl, fun c hc => absurd hc List.not_mem_nil, fun _ => List.nodup_nil, id⟩)⟩
  have nothing : (s.spaces.map (·.cleared)).flatMap (·.constraints) = [] := by
    rw [List.flatMap_map]
    exact List.flatMap_eq_nil_iff.mpr fun sp _ => rfl
  exact cleared.perm (.of_eq nothing) (.refl _)

end SketchSolver.Session
