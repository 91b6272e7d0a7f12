import SketchSolver.Proofs.Session.BatchOrder
import SketchSolver.Proofs.Session.Events

/-!
# Adding and removing cancel in a batch

While solving is put off, a constraint that is added waits at the end of the first space
and is registered on its entities. Taking it out at once undoes both, exactly, because its
id is new: no hosted constraint has it, so the one at the end is the one that is found
(`Space.removeConstraint_awaiting`), and it was registered nowhere, so taking it off leaves
every set of constraints as it was (`Sketch.unregister_register`).

After the removal comes what ends every removal: solving finely, which does nothing in a
session that is not locked, and refreshing, which does nothing while solving is put off
(`removeConstraints_of_busy`). So nothing is prepared and no parameter is numbered, and the
loaded systems, the ids and the values are literally those from before. What is left of the
constraint is the count of ids.

That the id is new follows from what holds after any events, also when spaces were thrown
away and entities taken off: ids that are hosted or registered were given out. Nothing
is asked about how the session came to be but that the constraints in it were created on
its own sketch, and that is so because a bench holds no others
(`removeConstraints_constrain`).

The conflicting sets are part of the state that comes back. The removed id is taken off
them, and it could not have been on them, for the mark of a constraint goes with it.
-/

namespace SketchSolver

variable {α : Type}

/-- Taking a constraint off its entities undoes its registration, if it was not registered
before. -/
theorem Sketch.unregister_register {sk : Sketch α} {c : ConstraintId}
    (new : ∀ e ∈ sk.entities, c ∉ e.constraints) (ids : List EntityId) :
    (sk.register c ids).unregister c ids = sk := by
  have affected : ids.flatMap (sk.register c ids).subtree = ids.flatMap sk.subtree :=
    congrArg (ids.flatMap ·) (funext fun id => subtree_changeConstraints sk ids _ id)
  have same : ((sk.register c ids).entities.map fun e =>
      if e.id ∈ ids.flatMap sk.subtree then
        { e with constraints := e.constraints.filter (· ≠ c) } else e) = sk.entities := by
    unfold register changeConstraints
    rw [List.map_map]
    refine (List.map_congr_left fun e mem => ?_).trans (List.map_id _)
    by_cases covered : e.id ∈ ids.flatMap sk.subtree
    · simp only [Function.comp_apply, if_pos covered]
      rw [Ascending.filter_insert (new e mem)]
      rfl
    · simp only [Function.comp_apply, if_neg covered]
      rfl
  unfold unregister Sketch.changeConstraints
  simp only
  rw [affected, same]
  rfl

/-- The constraint that waits at the end of a space is taken out again. -/
theorem Space.removeConstraint_awaiting {sp : Space α} {c : Constraint}
    (new : ∀ d ∈ sp.constraints, d.id ≠ c.id) (unmarked : sp.conflicting = [])
    (plain : c.decoration = none) (sk : Sketch α) :
    (sp.awaiting [c]).removeConstraint sk c.id =
      (.ok { c with space := none }, sp, sk.unregister c.id c.entities) := by
  have miss : ∀ d ∈ sp.constraints, ¬ (decide (d.id = c.id) = true) := fun d hd => by
    simpa using new d hd
  have found : (sp.awaiting [c]).constraint? c.id = some (sp.hostedBy c) := by
    unfold constraint? awaiting
    rw [List.find?_append, List.find?_eq_none.mpr miss]
    exact List.find?_cons_of_pos (p := fun d : Constraint => d.id = c.id) (decide_eq_true rfl)
  have erased : ((sp.awaiting [c]).constraints.eraseP fun d => d.id = c.id) = sp.constraints := by
    unfold awaiting
    rw [List.eraseP_append_right _ miss, List.map_singleton,
      List.eraseP_cons_of_pos (a := sp.hostedBy c) (decide_eq_true rfl), List.append_nil]
  have unspoilt : (sp.awaiting [c]).conflicting.filter (· ≠ c.id) = sp.conflicting := by
    show sp.conflicting.filter _ = _
    rw [unmarked]
    rfl
  rw [removeConstraint_eq sk found, erased, unspoilt]
  cases c
  obtain rfl := plain
  rfl

namespace Session

variable {s : Session α}

variable [Zero α] [One α] [Add α] [Sub α] [Mul α] [Div α] [Neg α] [LT α] [LE α] [BEq α]
variable [DecidableLT α] [DecidableLE α] [Elementary α]

/-- Nothing is solved when constraints are removed while solving is put off. -/
theorem removeConstraints_of_busy {ids : List ConstraintId} {removed : List Constraint}
    {s' : Session α} (detached : detachEach ids s = (.ok removed, s'))
    (unlocked : s'.locked = false) (busy : s'.inTransaction = true) :
    s.removeConstraints ids = (.ok removed, s') := by
  unfold removeConstraints
  rw [detached]
  simp only
  rw [solveFine_of_unlocked unlocked]
  simp only
  unfold refresh
  rw [if_pos busy]
  rfl

/-- A constraint that is added keeps its id. -/
theorem id_of_addToSpace {index : Nat} {c : Constraint} {id : ConstraintId} {s' : Session α}
    (added : s.addToSpace index c = (.ok id, s')) : id = c.id := by
  unfold addToSpace at added
  split at added
  next => simp at added
  next sp _ =>
    simp only at added
    cases result : (sp.addConstraint s.sketch c).1 with
    | error e =>
      rw [result] at added
      simp [Except.map] at added
    | ok _ =>
      rw [result] at added
      exact (Except.ok.inj (congrArg Prod.fst added)).symm

/-- **Removing what was added last undoes adding it**, for a constraint whose id is new to the first
space and to the sketch. -/
theorem removeConstraints_addToSpace {sp : Space α} {rest : List (Space α)} {c : Constraint}
    (spaces : s.spaces = sp :: rest) (unlocked : s.locked = false) (busy : s.inTransaction = true)
    (first : sp.inTransaction = true) (unmarked : sp.conflicting = [])
    (new : ∀ d ∈ sp.constraints, d.id ≠ c.id)
    (unregistered : ∀ e ∈ s.sketch.entities, c.id ∉ e.constraints) (plain : c.decoration = none) :
    (s.addToSpace 0 c).2.removeConstraints [c.id] = (.ok [{ c with space := none }], s) := by
  have hosted : (sp.awaiting [c]).contains c.id = true :=
    Space.constraint?_isSome.mpr
      ⟨sp.hostedBy c, List.mem_append_right _ (List.mem_singleton_self _), rfl⟩
  have detached : (s.addToSpace 0 c).2.detach c.id = (.ok { c with space := none }, s) := by
    rw [addToSpace_awaiting spaces first]
    unfold detach detachFrom
    simp only
    rw [if_pos hosted, Space.removeConstraint_awaiting new unmarked plain,
      Sketch.unregister_register unregistered]
    simp only
    rw [← spaces]
  refine removeConstraints_of_busy ?_ unlocked busy
  unfold detachEach
  rw [detached]
  rfl

end Session

namespace Bench

variable [Zero α] [One α] [Add α] [Sub α] [Mul α] [Div α] [Neg α] [LT α] [LE α] [BEq α]
variable [DecidableLT α] [DecidableLE α] [Elementary α]

/-- **Adding and removing cancel in a batch.** Whatever has happened before, as long as the session
is not locked and neither it nor its first space solves: a constraint that is created and added is
given back when it is removed at once, and nothing but the count of ids is left of it.

Every constraint that was added before was created on the session's own sketch: a bench creates
the constraints that it adds. One of another sketch could have the id that is given out next, and
the removal would take that one out. -/
theorem removeConstraints_constrain (name : String) (settings : Settings α)
    (events : List (Event α)) {s s' : Session α}
    (reached : (through events (create name settings)).session = s) (unlocked : s.locked = false)
    (busy : s.inTransaction = true) (first : ∀ sp ∈ s.spaces.head?, sp.inTransaction = true)
    {kind : Kind} {ids : List EntityId} {id : ConstraintId}
    (added : s.constrain kind ids = (.ok id, s')) :
    ∃ c : Constraint, c.id = id ∧ c.kind = kind ∧ c.entities = ids ∧
      s'.removeConstraints [id] = (.ok [c], { s with
        sketch := { s.sketch with constraintCount := s.sketch.constraintCount + 1 } }) := by
  have filed := (filed_through events (filed_create name settings)).session
  have regular := regular_through events (filed_create name settings)
    (Session.regular_create _ settings)
  rw [reached] at filed regular
  unfold Session.constrain at added
  cases created : Constraint.create s.sketch kind ids with
  | error e =>
    rw [created] at added
    simp at added
  | ok result =>
    obtain ⟨c, sketch⟩ := result
    rw [created] at added
    simp only at added
    obtain ⟨es, _, _, eq, rfl⟩ := Constraint.create_ok created
    obtain ⟨sp, rest, spaces⟩ := List.exists_cons_of_ne_nil (l := s.spaces) fun none => by
      rw [Session.add, Session.addToSpace, Session.space, none] at added
      simp at added
    have mem : sp ∈ s.spaces := by rw [spaces]; exact List.mem_cons_self
    have number : c.id.number = s.sketch.constraintCount + 1 := by rw [eq]
    -- both what is hosted and what is registered has a lower number
    have new : ∀ d ∈ sp.constraints, d.id ≠ c.id := fun d hd same => by
      have issued := ((filed.each sp mem).hosted d hd).2.numbered
      rw [same, number] at issued
      omega
    have unregistered : ∀ e ∈ s.sketch.entities, c.id ∉ e.constraints := fun e he hc => by
      have issued := filed.numbered e he c.id hc
      rw [number] at issued
      omega
    have batching : sp.inTransaction = true := first sp (by rw [spaces]; rfl)
    have cancelled := Session.removeConstraints_addToSpace
      (s := { s with sketch := { s.sketch with constraintCount := s.sketch.constraintCount + 1 } })
      spaces unlocked busy batching (regular sp mem).unmarked new unregistered (by rw [eq])
    rw [Session.add] at added
    obtain rfl := Session.id_of_addToSpace added
    rw [added] at cancelled
    exact ⟨{ c with space := none }, rfl, by rw [eq], by rw [eq], cancelled⟩

/-- A segment is to be vertical, and solving is put off. -/
def uprightWaiting : List (Event Float) := [
  .deed (.move (.draw (.segment 0 0 4 3))),
  .deed (.move (.operate .startTransaction trivial)),
  .deed (.move (.operate (.constrain .vertical [⟨3⟩]) trivial))]

/-- The ends of the segment are to coincide, and then they need not. -/
theorem removeConstraints_constrain_uprightWaiting : ∃ s s' : Session Float,
    (through uprightWaiting (create "sketch" Settings.standard)).session = s ∧
    s.locked = false ∧ s.inTransaction = true ∧
    (∀ sp ∈ s.spaces.head?, sp.inTransaction = true) ∧
    s.constrain .coincident [⟨1⟩, ⟨2⟩] = (.ok ⟨2⟩, s') ∧
    ∃ c : Constraint, c.id = ⟨2⟩ ∧ c.kind = .coincident ∧ c.entities = [⟨1⟩, ⟨2⟩] ∧
      s'.removeConstraints [⟨2⟩] = (.ok [c], { s with
        sketch := { s.sketch with constraintCount := s.sketch.constraintCount + 1 } }) := by
  have facts : ∃ s : Session Float,
      (through uprightWaiting (create "sketch" Settings.standard)).session = s ∧
      s.locked = false ∧ s.inTransaction = true ∧
      (∀ sp ∈ s.spaces.head?, sp.inTransaction = true) ∧
      (s.constrain .coincident [⟨1⟩, ⟨2⟩]).1.toOption = some ⟨2⟩ := by
    refine ⟨_, rfl, ?_⟩
    decide +kernel
  obtain ⟨s, reached, unlocked, busy, first, added⟩ := facts
  obtain ⟨result, s', eq⟩ : ∃ result s', s.constrain .coincident [⟨1⟩, ⟨2⟩] = (result, s') :=
    ⟨_, _, rfl⟩
  rw [eq] at added
  cases result with
  | error e => cases added
  | ok id =>
    obtain rfl := Option.some.inj added
    exact ⟨s, s', reached, unlocked, busy, first, eq,
      removeConstraints_constrain "sketch" Settings.standard uprightWaiting reached unlocked busy
        first eq⟩

end Bench

end SketchSolver
