import SketchSolver.Proofs.Session.Batches
import SketchSolver.Proofs.Session.Detaching

/-!
# Removing and clearing

Removing constraints and removing entities end in a new preparation, so they leave a
sound session (`removeConstraints_sound`, `removeEntities_sound`). Removing constraints
gives up early when one of them is not found, and clearing never prepares: these
leave problems behind that have too many equations.

Entities are removed in a transaction, one after the other. What is registered on an
entity and its points is taken out first, and then nothing that is left is anchored
there, so the entity may go without breaking the order (`removeEntity_inOrder`). The
transaction ends with every space prepared.

Whether removing constraints is carried out can be told beforehand: all of them must be
hosted, and none may be named twice, for the second time it is no longer there
(`Removable`, `detachEach_ok_iff`). If it is not carried out, what was taken out before the
one that is missing stays out, and the session is neither unlocked nor prepared. It is
still in order (`removeConstraints_inOrder`); only the match between problems and
constraints is lost.

Clearing takes the constraints of each space out, the last one first, and empties the list
of parameters. The problem of the space is left loaded, with all its equations
(`Space.cleared`, `loaded_clear`). A session in which nothing was hosted is as sound
afterwards as before (`clear_sound`), and one in which something was hosted is not: this is
counted where slips are treated.
-/

namespace SketchSolver

variable {α : Type}

/-- The space without any constraints and without parameters. The problem stays. -/
def Space.cleared (sp : Space α) : Space α :=
  { sp with constraints := [], params := IdList.empty, interactive := [] }

namespace Session

variable {s : Session α} {spaces : List (Space α)} {sp : Space α} {sk : Sketch α}

/-! ## Entities -/

/-- Several removals free what each of them frees, also those that do not find anything. -/
theorem foldl_detach_freed : ∀ (ids : List ConstraintId) {s : Session α}, s.InOrder →
    Freed ids s (ids.foldl (fun s c => (s.detach c).2) s)
  | [], _, inOrder => .refl inOrder
  | id :: ids, s, inOrder => by
    have first := detach_freed inOrder id
    exact first.trans (foldl_detach_freed ids first.inOrder)

/-- **Removing an entity keeps the session in order**: every constraint that is registered on it goes
first, so no parameter of it is shared any more. -/
theorem removeEntity_inOrder (inOrder : s.InOrder) (id : EntityId) : (s.removeEntity id).InOrder := by
  have freed := foldl_detach_freed (s.attached id) inOrder
  unfold removeEntity
  split
  next => exact inOrder
  next e _ =>
    split
    next => exact inOrder
    next =>
      simp only
      generalize (s.attached id).foldl (fun s c => (s.detach c).2) s = s' at freed
      refine ⟨freed.inOrder.orderly.of_fewer (forall₂_refl _)
        freed.inOrder.orderly.entities.without (Nat.le_refl _) ?_, freed.inOrder.idle⟩
      intro sp mem c hc h anchored
      refine anchored.without freed.inOrder.orderly.entities fun registered => ?_
      -- a constraint that is registered on what goes was among those attached, which are gone
      obtain ⟨i, at'⟩ := List.mem_iff_getElem?.mp mem
      refine ((freed.hosts i c).mp ⟨sp, at', hc⟩).2 (Ascending.mem_ofList.mpr ?_)
      obtain ⟨each, below, on⟩ := List.mem_flatMap.mp registered
      rw [freed.sketch.subtree] at below
      exact List.mem_flatMap.mpr ⟨each, below, freed.sketch.constraintsOf each c.id on⟩

theorem foldl_removeEntity_inOrder : ∀ (ids : List EntityId) {s : Session α}, s.InOrder →
    (ids.foldl removeEntity s).InOrder
  | [], _, inOrder => inOrder
  | id :: ids, _, inOrder => foldl_removeEntity_inOrder ids (removeEntity_inOrder inOrder id)

/-! ## Constraints -/

/-- Whether all constraints are found or not, those that were taken out are freed. -/
theorem detachEach_freed : ∀ (ids : List ConstraintId) {s : Session α}, s.InOrder →
    ∃ gone, Freed gone s (detachEach ids s).2
  | [], _, inOrder => ⟨[], .refl inOrder⟩
  | id :: ids, s, inOrder => by
    have first := detach_freed inOrder id
    unfold detachEach
    split
    next eq =>
      rw [eq] at first
      exact ⟨_, first⟩
    next eq =>
      rw [eq] at first
      obtain ⟨gone, later⟩ := detachEach_freed ids first.inOrder
      split
      next eq' =>
        rw [eq'] at later
        exact ⟨_, first.trans later⟩
      next eq' =>
        rw [eq'] at later
        exact ⟨_, first.trans later⟩

/-- The constraints are hosted, and none of them is named twice. -/
def Removable (s : Session α) (ids : List ConstraintId) : Prop :=
  ids.Nodup ∧ ∀ id ∈ ids, ∃ i d, Hosts s.spaces i d ∧ d.id = id

/-- **Constraints can be taken out together when each of them is there once.** -/
theorem detachEach_ok_iff : ∀ {ids : List ConstraintId} {s : Session α}, s.InOrder →
    ((∃ removed s', detachEach ids s = (.ok removed, s')) ↔ s.Removable ids)
  | [], s, _ => ⟨fun _ => ⟨.nil, fun id mem => absurd mem List.not_mem_nil⟩, fun _ => ⟨[], s, rfl⟩⟩
  | id :: ids, s, inOrder => by
    by_cases hosted : ∃ i d, Hosts s.spaces i d ∧ d.id = id
    · obtain ⟨i, c, hosted, rfl⟩ := hosted
      obtain ⟨removed, s', eq, freed, _⟩ := detach_hosted inOrder hosted
      -- the rest is decided in the session without it, where its id is hosted no more
      have rest : (∃ removed s'', detachEach (c.id :: ids) s = (.ok removed, s'')) ↔
          ∃ removed s'', detachEach ids s' = (.ok removed, s'') := by
        rw [detachEach, eq]
        simp only
        cases detachEach ids s' with
        | mk result s'' => cases result <;> simp
      rw [rest, detachEach_ok_iff freed.inOrder]
      constructor
      · rintro ⟨nodup, there⟩
        refine ⟨List.nodup_cons.mpr ⟨fun mem => ?_, nodup⟩, fun id mem => ?_⟩
        · obtain ⟨j, d, hd, same⟩ := there c.id mem
          exact ((freed.hosts j d).mp hd).2 (List.mem_singleton.mpr same)
        · rcases List.mem_cons.mp mem with rfl | mem
          · exact ⟨i, c, hosted, rfl⟩
          · obtain ⟨j, d, hd, same⟩ := there id mem
            exact ⟨j, d, ((freed.hosts j d).mp hd).1, same⟩
      · rintro ⟨nodup, there⟩
        obtain ⟨new, nodup⟩ := List.nodup_cons.mp nodup
        refine ⟨nodup, fun id mem => ?_⟩
        obtain ⟨j, d, hd, rfl⟩ := there id (List.mem_cons_of_mem _ mem)
        refine ⟨j, d, (freed.hosts j d).mpr ⟨hd, fun same => new ?_⟩, rfl⟩
        rw [← List.mem_singleton.mp same]
        exact mem
    · have absent : ∀ i d, Hosts s.spaces i d → d.id ≠ id := fun i d hd same =>
        hosted ⟨i, d, hd, same⟩
      rw [detachEach, detach_absent absent]
      simp only [Prod.mk.injEq, reduceCtorEq, false_and, exists_false, false_iff]
      exact fun removable => hosted (removable.2 id List.mem_cons_self)

/-- Nothing is taken out when the first constraint is not there. -/
theorem detachEach_absent {id : ConstraintId} (ids : List ConstraintId)
    (absent : ∀ i d, Hosts s.spaces i d → d.id ≠ id) :
    detachEach (id :: ids) s = (.error (.constraintNotFound id), s) := by
  unfold detachEach
  rw [detach_absent absent]

/-- When the first constraint is there, less is demanded afterwards. -/
theorem detachEach_hosted {i : Nat} {c : Constraint} (inOrder : s.InOrder)
    (hosted : Hosts s.spaces i c) (ids : List ConstraintId) :
    (detachEach (c.id :: ids) s).2.demanded < s.demanded := by
  obtain ⟨removed, s', eq, freed, lt⟩ := detach_hosted inOrder hosted
  obtain ⟨gone, later⟩ := detachEach_freed ids freed.inOrder
  have le := later.demanded
  unfold detachEach
  rw [eq]
  simp only
  split
  next eq' =>
    rw [eq'] at le
    exact Nat.lt_of_le_of_lt le lt
  next eq' =>
    rw [eq'] at le
    exact Nat.lt_of_le_of_lt le lt

/-! ## Clearing -/

/-- Removing an id leaves the other constraints and releases the id, also when no constraint has it. -/
theorem removeConstraint_released (sk : Sketch α) (unmarked : sp.conflicting = [])
    (distinct : (sp.constraints.map (·.id)).Nodup) (id : ConstraintId) :
    ∃ result sk', sp.removeConstraint sk id = (result, sp.dropping id, sk') ∧
      sk.Released [id] sk' := by
  cases found : sp.constraint? id with
  | some c =>
    obtain ⟨_, rfl⟩ := Space.constraint?_some found
    exact ⟨_, _, removeConstraint_space unmarked distinct sk found, sk.released_undecorate c⟩
  | none =>
    refine ⟨.error (.constraintNotFound id), sk, ?_, .refl _ sk⟩
    rw [dropping_of_absent fun c hc same => ?_]
    · unfold Space.removeConstraint
      rw [found]
    · have some := Space.constraint?_isSome.mpr ⟨c, hc, same⟩
      rw [found] at some
      simp at some

/-- A space from which ids are removed one after the other hosts the others, in their order. -/
theorem removeAll_spec : ∀ (ids : List ConstraintId) {sp : Space α} (sk : Sketch α),
    sp.conflicting = [] → (sp.constraints.map (·.id)).Nodup →
    ∃ sk', sp.removeAll sk ids =
        ({ sp with constraints := sp.constraints.filter fun c => c.id ∉ ids }, sk') ∧
      sk.Released ids sk'
  | [], sp, sk, _, _ => by
    refine ⟨sk, ?_, .refl _ sk⟩
    have all : (sp.constraints.filter fun c => c.id ∉ []) = sp.constraints :=
      List.filter_eq_self.mpr fun c _ => by simp
    rw [all]
    rfl
  | id :: ids, sp, sk, unmarked, distinct => by
    have both : (sp.constraints.filter fun c => c.id ≠ id).filter (fun c => c.id ∉ ids) =
        sp.constraints.filter fun c => c.id ∉ id :: ids := by
      rw [List.filter_filter]
      exact List.filter_congr fun c _ => by simp [Bool.and_comm]
    obtain ⟨result, sk₁, eq, released⟩ := removeConstraint_released sk unmarked distinct id
    have unmarked' : (sp.dropping id).conflicting = [] := unmarked
    obtain ⟨sk', eq', released'⟩ := removeAll_spec ids sk₁ unmarked'
      (distinct.sublist (List.filter_sublist.map _))
    refine ⟨sk', ?_, released.trans released'⟩
    unfold Space.removeAll
    rw [eq]
    simp only
    rw [eq']
    unfold Space.dropping
    simp only
    rw [both]

/-- A cleared space hosts and lists nothing, and its constraints are released. -/
theorem clear_space (unmarked : sp.conflicting = []) (distinct : (sp.constraints.map (·.id)).Nodup)
    (sk : Sketch α) : ∃ sk' gone, sp.clear sk = (sp.cleared, sk') ∧ sk.Released gone sk' := by
  obtain ⟨sk', eq, released⟩ :=
    removeAll_spec (sp.constraints.map (·.id)).reverse sk unmarked distinct
  have none : (sp.constraints.filter fun c => c.id ∉ (sp.constraints.map (·.id)).reverse) = [] := by
    refine List.filter_eq_nil_iff.mpr fun c hc => ?_
    have mem : c.id ∈ (sp.constraints.map (·.id)).reverse :=
      List.mem_reverse.mpr (List.mem_map_of_mem hc)
    simp only [mem, not_true_eq_false, decide_false, Bool.false_eq_true, not_false_eq_true]
  refine ⟨sk', _, ?_, released⟩
  unfold Space.clear
  rw [eq, none]
  rfl

/-- All spaces are cleared, and their constraints released. -/
theorem clearSpaces_spec : ∀ {spaces : List (Space α)} (sk : Sketch α),
    (∀ sp ∈ spaces, sp.conflicting = []) → (∀ sp ∈ spaces, (sp.constraints.map (·.id)).Nodup) →
    ∃ sk' gone, clearSpaces spaces sk = (spaces.map (·.cleared), sk') ∧ sk.Released gone sk'
  | [], sk, _, _ => ⟨sk, [], rfl, .refl _ sk⟩
  | sp :: rest, sk, unmarked, distinct => by
    obtain ⟨sk₁, gone, eq, released⟩ :=
      clear_space (unmarked sp List.mem_cons_self) (distinct sp List.mem_cons_self) sk
    obtain ⟨sk', gone', eq', released'⟩ := clearSpaces_spec sk₁
      (fun tp mem => unmarked tp (List.mem_cons_of_mem _ mem))
      fun tp mem => distinct tp (List.mem_cons_of_mem _ mem)
    refine ⟨sk', _, ?_, released.trans released'⟩
    unfold clearSpaces
    rw [eq]
    simp only
    rw [eq', List.map_cons]

/-- **Clearing leaves the problems as they are.** -/
theorem clear_eq (inOrder : s.InOrder) : ∃ sketch gone,
    s.clear = { s with spaces := s.spaces.map (·.cleared), sketch } ∧
      s.sketch.Released gone sketch := by
  obtain ⟨sketch, gone, eq, released⟩ := clearSpaces_spec s.sketch
    (fun sp mem => (inOrder.orderly.regular sp mem).unmarked) inOrder.orderly.distinct
  refine ⟨sketch, gone, ?_, released⟩
  unfold clear
  rw [eq]

theorem clear_inOrder (inOrder : s.InOrder) : s.clear.InOrder := by
  obtain ⟨sketch, gone, eq, released⟩ := clear_eq inOrder
  rw [eq]
  refine ⟨inOrder.orderly.of_fewer ?_ (released.distinct inOrder.orderly.entities)
    (Nat.le_of_eq released.count.symm) fun sp mem c hc => ?_, fun idle sp mem => ?_⟩
  · exact forall₂_map fun sp =>
      ⟨rfl, fun c hc => absurd hc List.not_mem_nil, fun _ => List.nodup_nil, id⟩
  · obtain ⟨sp, _, rfl⟩ := List.mem_map.mp mem
    exact absurd hc List.not_mem_nil
  · obtain ⟨sp, old, rfl⟩ := List.mem_map.mp mem
    exact inOrder.idle idle sp old

/-- Clearing leaves all equations loaded while none is demanded. -/
theorem loaded_clear (inOrder : s.InOrder) : s.clear.loaded = s.loaded ∧ s.clear.demanded = 0 := by
  obtain ⟨sketch, gone, eq, _⟩ := clear_eq inOrder
  rw [eq]
  unfold loaded demanded
  simp only
  rw [List.map_map, List.map_map]
  refine ⟨rfl, List.sum_eq_zero fun n mem => ?_⟩
  obtain ⟨sp, _, rfl⟩ := List.mem_map.mp mem
  rfl

section Solve

variable [Zero α]

/-- Where nothing is hosted, clearing is harmless. -/
theorem clear_sound (sound : s.Sound)
    (nothing : s.inTransaction = false → ∀ sp ∈ s.spaces, sp.constraints = []) :
    s.clear.Sound := by
  refine ⟨clear_inOrder sound.toInOrder, ?_⟩
  obtain ⟨sketch, gone, eq, _⟩ := clear_eq sound.toInOrder
  rw [eq]
  intro idle sp mem
  obtain ⟨sp, old, rfl⟩ := List.mem_map.mp mem
  have settled := sound.settled idle sp old
  exact .of_empty settled.idle rfl (settled.unloaded (nothing idle sp old)) settled.needed

variable [One α] [Add α] [Sub α] [Mul α] [Div α] [Neg α] [LT α] [LE α] [BEq α]
variable [DecidableLT α] [DecidableLE α] [Elementary α]

/-- **Removing entities leaves a sound session.** -/
theorem removeEntities_sound (inOrder : s.InOrder) (ids : List EntityId) :
    (s.removeEntities ids).2.Sound :=
  finishTransaction_sound
    (foldl_removeEntity_inOrder ids (startTransaction_inOrder inOrder)).orderly

/-- **Removing constraints leaves a sound session**, if all of them are there. -/
theorem removeConstraints_sound (inOrder : s.InOrder) {ids : List ConstraintId}
    {removed : List Constraint} {s' : Session α} (found : detachEach ids s = (.ok removed, s')) :
    (s.removeConstraints ids).2.Sound := by
  obtain ⟨gone, freed⟩ := detachEach_freed ids inOrder
  rw [found] at freed
  have fine := solveFine_inOrder freed.inOrder
  unfold removeConstraints
  rw [found]
  simp only
  split
  next eq =>
    -- only a locked session is solved, and then it was prepared first
    have locked : s'.locked = true := by
      cases unlocked : s'.locked with
      | true => rfl
      | false =>
        rw [solveFine_of_unlocked unlocked] at eq
        simp at eq
    have sound := solveFine_sound_of_locked freed.inOrder locked
    rw [eq] at sound
    exact sound
  next eq =>
    rw [eq] at fine
    exact (refresh_sound fine).2

/-- A constraint that is not found ends the removal where it stands. -/
theorem removeConstraints_of_error {ids : List ConstraintId} {e : Failure α} {s' : Session α}
    (failed : detachEach ids s = (.error e, s')) : s.removeConstraints ids = (.error e, s') := by
  unfold removeConstraints
  rw [failed]

/-- Removing constraints keeps the order, whether all of them are found or not. -/
theorem removeConstraints_inOrder (inOrder : s.InOrder) (ids : List ConstraintId) :
    (s.removeConstraints ids).2.InOrder := by
  obtain ⟨gone, freed⟩ := detachEach_freed ids inOrder
  cases found : detachEach ids s with
  | mk result s' =>
    cases result with
    | ok removed => exact (removeConstraints_sound inOrder found).toInOrder
    | error e =>
      rw [found] at freed
      rw [removeConstraints_of_error found]
      exact freed.inOrder

end Solve

end Session

end SketchSolver
