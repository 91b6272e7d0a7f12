import SketchSolver.Proofs.Sketch.Ledger

/-!
# Sessions that keep the books

A session is tidy when the books of its sketch are right about the constraints that
its spaces host and those that its callers hold, and every hosted constraint tells
the space that hosts it. The first is the ledger of the sketch, which knows nothing about
spaces; the second is `Placed`, which knows nothing about the sketch. Together they are
the invariant of all operations on a session that was never reset.

Operations on all spaces only rearrange what a space hosts (`Tidy.of_swept`). They sort
constraints, number parameters, load problems and solve, and none of this is in the books.
So preparing, solving, ending a transaction and solving finely are all settled by one
lemma, from what a sweep over the spaces is known to leave alone.

Operations that change the spaces without looking at constraints are settled by `Tidy.map`:
the settings of a space and whether it puts off solving are not in the books either. A new
space is empty and stands at the end (`Placed.append`).

One operation that adds takes a constraint from those that are held, whether it is
accepted or not (`Tidy.addToSpace`), and one that takes out gives it back (`Tidy.detach`).
These come later, with the notions of giving and taking.
-/

namespace SketchSolver

variable {α : Type}

/-- The spaces are at the positions of their indices, and there is at least one. All constraints take
part and tell where they are. -/
structure Session.Placed (spaces : List (Space α)) : Prop where
  filled : spaces ≠ []
  indices : spaces.map (·.index) = List.range spaces.length
  hosted : ∀ sp ∈ spaces, ∀ c ∈ sp.constraints, c.space = some sp.index
  unmarked : ∀ sp ∈ spaces, sp.conflicting = []

/-- The books of the sketch are right, given the constraints that are not hosted. -/
structure Session.Tidy (s : Session α) (held : List Constraint) : Prop where
  ledger : s.sketch.Ledger s.constraints held
  placed : Session.Placed s.spaces

namespace Session

open Space (Worked Added)

variable {s s' : Session α} {held held' : List Constraint} {sp sp' : Space α} {c : Constraint}
variable {spaces spaces' : List (Space α)} {sk sk' : Sketch α} {id : ConstraintId}

namespace Placed

/-- Spaces stay placed when they host less, at the same positions. -/
theorem of_fewer (placed : Placed spaces) (fewer : List.Forall₂ Fewer spaces spaces') :
    Placed spaces' := by
  have length := fewer.length_eq
  have indices : spaces'.map (·.index) = spaces.map (·.index) := by
    refine List.ext_getElem (by simp [length]) fun i bound bound' => ?_
    rw [List.getElem_map, List.getElem_map]
    exact (fewer.get (by simpa using bound') (by simpa using bound)).index
  refine ⟨fun none => placed.filled ?_, ?_, fun sp' mem c hc => ?_, fun sp' mem => ?_⟩
  · rw [none] at length
    exact List.length_eq_zero_iff.mp length
  · rw [indices, placed.indices, length]
  · obtain ⟨sp, hsp, few⟩ := exists_of_forall₂ fewer mem
    rw [few.index]
    exact placed.hosted sp hsp c (few.constraints c hc)
  · obtain ⟨sp, hsp, few⟩ := exists_of_forall₂ fewer mem
    exact few.conflicting (placed.unmarked sp hsp)

/-- One space among others may come to host constraints that tell it. -/
theorem middle {pre post : List (Space α)} (placed : Placed (pre ++ sp :: post))
    (index : sp'.index = sp.index) (conflicting : sp'.conflicting = sp.conflicting)
    (hosted : ∀ c ∈ sp'.constraints, c ∈ sp.constraints ∨ c.space = some sp.index) :
    Placed (pre ++ sp' :: post) := by
  refine ⟨by simp, ?_, forall_middle placed.hosted fun old c hc => ?_,
    forall_middle placed.unmarked fun none => conflicting.trans none⟩
  · have indices := placed.indices
    rw [List.map_append, List.map_cons] at indices ⊢
    rw [index, indices]
    simp
  · rw [index]
    exact (hosted c hc).elim (old c) id

/-- An empty space whose index is the next position may be put at the end. -/
theorem append (placed : Placed spaces) (index : sp.index = spaces.length)
    (nothing : sp.constraints = []) (unmarked : sp.conflicting = []) : Placed (spaces ++ [sp]) := by
  refine ⟨by simp, ?_, fun tp mem c hc => ?_, fun tp mem => ?_⟩
  · rw [List.map_append, placed.indices, List.map_singleton, index, List.length_append,
      List.length_singleton, List.range_succ]
  · rcases List.mem_append.mp mem with old | new
    · exact placed.hosted tp old c hc
    · rw [List.mem_singleton.mp new, nothing] at hc
      exact absurd hc List.not_mem_nil
  · rcases List.mem_append.mp mem with old | new
    · exact placed.unmarked tp old
    · rw [List.mem_singleton.mp new]
      exact unmarked

end Placed

/-! ## Operations on all spaces -/

namespace Tidy

theorem perm (tidy : s.Tidy held) (same : held'.Perm held) : s.Tidy held' :=
  ⟨tidy.ledger.perm (.refl _) same, tidy.placed⟩

/-- A held constraint without a decoration may be forgotten. -/
theorem drop (tidy : s.Tidy (c :: held)) (plain : c.decoration = none) : s.Tidy held :=
  ⟨tidy.ledger.drop plain, tidy.placed⟩

/-- What is hosted is known to the sketch. -/
theorem known (tidy : s.Tidy held) (mem : sp ∈ s.spaces) (hc : c ∈ sp.constraints) :
    s.sketch.Knows c :=
  tidy.ledger.accounts.known c (List.mem_append_left _ (List.mem_flatMap.mpr ⟨sp, mem, hc⟩))

/-- Constraints that the sketch knows fit their kinds, so the spaces that host them are regular. -/
theorem regular (tidy : s.Tidy held) : ∀ sp ∈ s.spaces, sp.Regular := fun sp mem =>
  ⟨fun _ hc => (tidy.known mem hc).fits, tidy.placed.unmarked sp mem⟩

/-- Spaces may be changed in all that the books do not mention. -/
theorem map (tidy : s.Tidy held) {f : Space α → Space α} (index : ∀ sp, (f sp).index = sp.index)
    (constraints : ∀ sp, (f sp).constraints = sp.constraints)
    (conflicting : ∀ sp, (f sp).conflicting = sp.conflicting) :
    { s with spaces := s.spaces.map f }.Tidy held := by
  refine ⟨?_, tidy.placed.of_fewer (forall₂_map fun sp =>
    .of_perm (index sp) (.of_eq (constraints sp)) (conflicting sp))⟩
  have same : ({ s with spaces := s.spaces.map f } : Session α).constraints = s.constraints := by
    unfold Session.constraints
    simp only [List.flatMap_map, constraints]
  rw [same]
  exact tidy.ledger

theorem withSettings (tidy : s.Tidy held) (settings : Settings α) :
    (s.withSettings settings).Tidy held :=
  have tidy' := tidy.map (f := fun sp => sp.withSettings settings) (fun _ => rfl) (fun _ => rfl)
    fun _ => rfl
  ⟨tidy'.ledger, tidy'.placed⟩

theorem startTransaction (tidy : s.Tidy held) : s.startTransaction.Tidy held :=
  have tidy' := tidy.map (f := (·.startTransaction)) (fun _ => rfl) (fun _ => rfl) fun _ => rfl
  ⟨tidy'.ledger, tidy'.placed⟩

/-- A new space hosts nothing and stands at the end. -/
theorem addSpace (tidy : s.Tidy held) : s.addSpace.2.Tidy held := by
  refine ⟨?_, tidy.placed.append rfl rfl rfl⟩
  have same : s.addSpace.2.constraints = s.constraints := by
    unfold Session.constraints Session.addSpace
    simp [Space.create]
  rw [same]
  exact tidy.ledger

theorem addSpacesUpTo (tidy : s.Tidy held) (index : Nat) : (s.addSpacesUpTo index).Tidy held := by
  unfold Session.addSpacesUpTo
  generalize List.range (index + 1 - s.spaces.length) = missing
  induction missing generalizing s with
  | nil => exact tidy
  | cons _ missing ih => exact ih tidy.addSpace

variable [Zero α]

/-- Work that adds no constraint and takes none out keeps a session tidy. -/
theorem of_swept (tidy : s.Tidy held) (swept : Swept s.spaces s.sketch s'.spaces s'.sketch) :
    s'.Tidy held :=
  ⟨(tidy.ledger.of_store swept.sketch).perm swept.constraints (.refl _),
    tidy.placed.of_fewer swept.fewer⟩

/-- Preparing sorts constraints, and the books do not know an order. -/
theorem prepare (tidy : s.Tidy held) (dragged : Option EntityId) (force : Bool) :
    (s.prepare dragged force).2.Tidy held :=
  tidy.of_swept (swept_untilFailure s.sketch fun sp mem sk =>
    (Space.prepare_outcome (tidy.regular sp mem) sk dragged force).worked)

theorem refresh (tidy : s.Tidy held) : s.refresh.2.Tidy held := by
  unfold Session.refresh
  split
  next => exact tidy
  next => exact tidy.prepare none false

omit [Zero α] in
/-- Locking a session does not touch its books. -/
theorem lockOn (r : Option (Failure α) × List (Space α) × Sketch α)
    (tidy : { s with spaces := r.2.1, sketch := r.2.2 }.Tidy held) : (s.lockOn r).2.Tidy held := by
  obtain ⟨locked, eq⟩ := s.lockOn_eq r
  rw [eq]
  exact ⟨tidy.ledger, tidy.placed⟩

variable [One α] [Add α] [Sub α] [Mul α] [Div α] [Neg α] [LT α] [LE α] [BEq α]
variable [DecidableLT α] [DecidableLE α] [Elementary α]

/-- Solving moves parameters and marks nothing for good. -/
theorem solve (tidy : s.Tidy held) (rough : Bool) : (s.solve rough).2.Tidy held := by
  unfold Session.solve
  split
  next => exact tidy
  next =>
    refine lockOn _ (tidy.of_swept ?_)
    exact swept_onEach s.sketch fun sp _ sk => (Space.solveNow_solved sp sk rough).worked

/-- All spaces are prepared and solved, whichever of them fails. -/
theorem finishTransaction (tidy : s.Tidy held) : s.finishTransaction.2.Tidy held := by
  have swept : Swept s.spaces s.sketch
      (onEach (fun sp sk => sp.finishTransaction sk) s.spaces s.sketch).2.1
      (onEach (fun sp sk => sp.finishTransaction sk) s.spaces s.sketch).2.2 :=
    swept_onEach s.sketch fun sp mem sk =>
      (Space.finishTransaction_outcome (tidy.regular sp mem) sk).1
  have ended := lockOn (s := { s with inTransaction := false }) _ (tidy.of_swept swept)
  unfold Session.finishTransaction
  simp only
  split
  next eq =>
    rw [eq] at ended
    exact ended
  next eq =>
    rw [eq] at ended
    exact ended.refresh

theorem solveFine (tidy : s.Tidy held) : s.solveFine.2.Tidy held := by
  unfold Session.solveFine
  split
  next => exact tidy
  next =>
    have unlocked : { s with locked := false }.Tidy held := ⟨tidy.ledger, tidy.placed⟩
    have prepared := unlocked.prepare none true
    split
    next eq =>
      rw [eq] at prepared
      exact prepared
    next eq =>
      rw [eq] at prepared
      exact prepared.solve false

theorem drag (tidy : s.Tidy held) (id : EntityId) (dx dy : α) : (s.drag id dx dy).2.Tidy held := by
  have prepared := tidy.prepare (some id) s.locked
  unfold Session.drag
  split
  next eq =>
    rw [eq] at prepared
    exact prepared
  next s₁ eq =>
    rw [eq] at prepared
    split
    next => exact prepared
    next sketch moved =>
      obtain ⟨shape, same⟩ := exists_translate moved
      have moved' : { s₁ with sketch }.Tidy held :=
        ⟨prepared.ledger.of_store (by rw [same]), prepared.placed⟩
      exact moved'.solve true

end Tidy

end Session

end SketchSolver
