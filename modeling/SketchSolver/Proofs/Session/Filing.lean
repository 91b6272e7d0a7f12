import SketchSolver.Proofs.Session.Custody
import SketchSolver.Proofs.Space.Filing

/-!
# Sessions with their constraints on file

A session is `Filed` when all its spaces are, and stand at the positions of their indices,
and the sketch has its families and numbers in order. Every operation keeps a session so
(`Files`), provided that the constraints that it is given were created on the sketch; what
it gives out was.

This asks for less than right books, and so it also holds of a session that was reset. It
does not say what is registered, nor that entities of constraints are there. It does say
two things that the books do not: outside a transaction no space puts off solving, and
spaces that do not put it off have their constraints sorted by the codes of their kinds.
Both are what restoring records rests on.

`Files` is an implication that also carries what the sketch retains, so it composes
(`Files.trans`), and an operation that is made of others is settled by composing theirs.
For an operation on all spaces the same is said about lists of spaces (`FilesAll`), by
induction on the list, and then read off for the session (`FilesAll.files`); an operation
on one space is a list with that space in the middle (`FilesAll.middle`).

Ending a transaction needs an argument of its own. A space hosts what waits for the end
unsorted, and it is the preparing at the end that sorts it, also where the solve after it
fails. So every space that has ended its transaction is sorted and solves again, and only
then may the session say that solving is not put off (`finishTransaction_files`).

What is given out, by taking constraints out or by rebuilding them from records, was
created on the sketch, and remains so while the operation goes on.
-/

namespace SketchSolver

variable {α : Type}

namespace Session

variable {s s' s'' : Session α} {sp sp' : Space α} {spaces spaces' : List (Space α)}
variable {sk sk' sk'' : Sketch α} {c : Constraint} {cs : List Constraint}

/-- All spaces are at the positions of their indices and have their constraints on file. Families
of entities are in order, and so are the ids of constraints. -/
structure Filed (s : Session α) : Prop where
  families : s.sketch.Families
  numbered : s.sketch.Numbered
  indices : s.spaces.map (·.index) = List.range s.spaces.length
  each : ∀ sp ∈ s.spaces, sp.Filed s.sketch
  idle : s.inTransaction = false → ∀ sp ∈ s.spaces, sp.inTransaction = false

/-- An operation on a session keeps what is on file. -/
def Files (s s' : Session α) : Prop := s.Filed → s'.Filed ∧ s.sketch.Retains s'.sketch

theorem Files.refl (s : Session α) : Files s s := fun filed => ⟨filed, .refl s.sketch⟩

theorem Files.trans (h₁ : Files s s') (h₂ : Files s' s'') : Files s s'' := by
  intro filed
  obtain ⟨filed', retains⟩ := h₁ filed
  exact (h₂ filed').imp_right retains.trans

/-! ## One space after the other -/

/-- An operation on some spaces and the sketch keeps what is on file. -/
structure FilesAll (spaces : List (Space α)) (sk : Sketch α) (spaces' : List (Space α))
    (sk' : Sketch α) : Prop where
  indices : spaces'.map (·.index) = spaces.map (·.index)
  idle : (∀ sp ∈ spaces, sp.inTransaction = false) → ∀ sp ∈ spaces', sp.inTransaction = false
  filed : (∀ sp ∈ spaces, sp.Filed sk) → ∀ sp ∈ spaces', sp.Filed sk'
  sketch : sk.Retains sk'

namespace FilesAll

theorem refl (spaces : List (Space α)) (sk : Sketch α) : FilesAll spaces sk spaces sk :=
  ⟨rfl, id, id, .refl sk⟩

/-- The first space and the sketch, and then the other spaces and the sketch that the first one
left. -/
theorem cons (first : sp.Files sk sp' sk') (later : FilesAll spaces sk' spaces' sk'') :
    FilesAll (sp :: spaces) sk (sp' :: spaces') sk'' := by
  refine ⟨?_, fun idle => ?_, fun filed => ?_, first.sketch.trans later.sketch⟩
  · rw [List.map_cons, List.map_cons, first.index, later.indices]
  · obtain ⟨head, tail⟩ := List.forall_mem_cons.mp idle
    exact List.forall_mem_cons.mpr ⟨first.idle head, later.idle tail⟩
  · obtain ⟨head, tail⟩ := List.forall_mem_cons.mp filed
    refine List.forall_mem_cons.mpr ⟨(first.filed head).retain later.sketch, later.filed ?_⟩
    exact fun tp mem => (tail tp mem).retain first.sketch

/-- An operation on one of the spaces leaves the others. -/
theorem middle {post : List (Space α)} (files : sp.Files sk sp' sk') :
    ∀ pre : List (Space α), FilesAll (pre ++ sp :: post) sk (pre ++ sp' :: post) sk'
  | [] => cons files (.refl post sk')
  | tp :: pre => cons (.refl tp sk) (middle files pre)

/-- What an operation does to all spaces it does to the session. -/
theorem files (all : FilesAll s.spaces s.sketch s'.spaces s'.sketch)
    (idle : s'.inTransaction = false →
      s.inTransaction = false ∨ ∀ sp ∈ s'.spaces, sp.inTransaction = false) : Files s s' := by
  intro filed
  refine ⟨⟨all.sketch.families filed.families, all.sketch.numbered filed.numbered, ?_,
    all.filed filed.each, fun now => ?_⟩, all.sketch⟩
  rotate_left
  · exact (idle now).elim (fun before => all.idle (filed.idle before)) id
  have length := congrArg List.length all.indices
  rw [List.length_map, List.length_map] at length
  rw [all.indices, filed.indices, length]

end FilesAll

/-- An operation on every space keeps what is on file, whichever space fails. -/
theorem onEach_files {β : Type} {act : SpaceAction α β}
    (files : ∀ sp sk, Space.Files sp sk (act sp sk).2.1 (act sp sk).2.2) :
    ∀ (spaces : List (Space α)) (sk : Sketch α),
      FilesAll spaces sk (onEach act spaces sk).2.1 (onEach act spaces sk).2.2
  | [], sk => .refl [] sk
  | sp :: rest, sk => by
    rw [onEach_cons]
    exact .cons (files sp sk) (onEach_files files rest _)

/-- What holds of every space after an operation on it holds of all spaces after all of them. -/
theorem forall_onEach {β : Type} {act : SpaceAction α β} {p : Space α → Prop}
    (after : ∀ sp sk, p (act sp sk).2.1) : ∀ (spaces : List (Space α)) (sk : Sketch α),
      ∀ sp ∈ (onEach act spaces sk).2.1, p sp
  | [], _, sp, mem => absurd mem List.not_mem_nil
  | sp :: rest, sk, tp, mem => by
    rw [onEach_cons] at mem
    rcases List.mem_cons.mp mem with rfl | mem
    · exact after sp sk
    · exact forall_onEach after rest _ tp mem

/-- Spaces after the one that fails are not reached, and stay on file as they are. -/
theorem untilFailure_files {act : SpaceAction α Unit}
    (files : ∀ sp sk, Space.Files sp sk (act sp sk).2.1 (act sp sk).2.2) :
    ∀ (spaces : List (Space α)) (sk : Sketch α),
      FilesAll spaces sk (untilFailure act spaces sk).2.1 (untilFailure act spaces sk).2.2
  | [], sk => .refl [] sk
  | sp :: rest, sk => by
    have first := files sp sk
    unfold untilFailure
    split
    next eq =>
      rw [eq] at first
      exact .cons first (.refl rest _)
    next sp₁ sk₁ eq =>
      rw [eq] at first
      exact .cons first (untilFailure_files files rest sk₁)

/-- Clearing leaves nothing that could not be on file. -/
theorem clearSpaces_files : ∀ (spaces : List (Space α)) (sk : Sketch α),
    FilesAll spaces sk (clearSpaces spaces sk).1 (clearSpaces spaces sk).2
  | [], sk => .refl [] sk
  | sp :: rest, sk => .cons (Space.clear_files sp sk) (clearSpaces_files rest _)

/-- Taking a constraint out of the first space that hosts it leaves the other spaces. -/
theorem detachFrom_files (id : ConstraintId) : ∀ (spaces : List (Space α)) (sk : Sketch α),
    FilesAll spaces sk (detachFrom id spaces sk).2.1 (detachFrom id spaces sk).2.2
  | [], sk => .refl [] sk
  | sp :: rest, sk => by
    unfold detachFrom
    split
    next => exact .cons (Space.removeConstraint_files sp sk id) (.refl rest _)
    next => exact .cons (.refl sp sk) (detachFrom_files id rest sk)

/-- What is taken out was on file, so it was created on the sketch. -/
theorem traces_detachFrom {id : ConstraintId} : ∀ {spaces : List (Space α)},
    (∀ sp ∈ spaces, sp.Filed sk) → (detachFrom id spaces sk).1 = .ok c → sk.Traces c
  | [], _, detached => by simp [detachFrom] at detached
  | sp :: rest, filed, detached => by
    obtain ⟨first, later⟩ := List.forall_mem_cons.mp filed
    unfold detachFrom at detached
    split at detached
    next => exact Space.traces_removeConstraint first detached
    next => exact traces_detachFrom later detached

/-! ## Operations without solving -/

theorem withSettings_files (s : Session α) (settings : Settings α) :
    Files s (s.withSettings settings) := by
  refine FilesAll.files (s := s) ⟨?_, fun idle sp mem => ?_, fun filed sp mem => ?_, .refl _⟩ .inl
  · exact List.map_map
  · obtain ⟨sp, old, rfl⟩ := List.mem_map.mp mem
    exact idle sp old
  · obtain ⟨sp, old, rfl⟩ := List.mem_map.mp mem
    exact ⟨(filed sp old).hosted, (filed sp old).sorted⟩

/-- When solving is put off, constraints need not be sorted. -/
theorem startTransaction_files (s : Session α) : Files s s.startTransaction := by
  intro filed
  refine ⟨⟨filed.families, filed.numbered, ?_, fun sp mem => ?_,
    fun idle => Bool.noConfusion idle⟩, .refl _⟩
  · unfold startTransaction
    rw [List.length_map, ← filed.indices]
    exact List.map_map
  · obtain ⟨sp, old, rfl⟩ := List.mem_map.mp mem
    exact ⟨(filed.each sp old).hosted, fun idle => Bool.noConfusion idle⟩

/-- A session with one empty space has nothing on file. -/
theorem filed_create {sketch : Sketch α} (families : sketch.Families) (numbered : sketch.Numbered)
    (settings : Settings α) : (create sketch settings).Filed := by
  refine ⟨families, numbered, rfl, fun sp mem => ?_, fun _ sp mem => ?_⟩
  · obtain rfl := List.mem_singleton.mp mem
    exact ⟨fun c hc => absurd hc List.not_mem_nil, fun _ => .nil⟩
  · obtain rfl := List.mem_singleton.mp mem
    rfl

theorem reset_files (s : Session α) : Files s s.reset := by
  intro filed
  have fresh := filed_create filed.families filed.numbered s.settings
  exact ⟨⟨filed.families, filed.numbered, rfl, fresh.each, fun _ => fresh.idle rfl⟩, .refl _⟩

/-- A new space stands at the position of its index. -/
theorem indices_addSpace (indices : s.spaces.map (·.index) = List.range s.spaces.length) :
    s.addSpace.2.spaces.map (·.index) = List.range s.addSpace.2.spaces.length := by
  unfold addSpace
  rw [List.map_append, indices, List.length_append, List.length_singleton, List.range_succ]
  rfl

/-- A new space has nothing on file, and it does not put off solving. -/
theorem addSpace_files (s : Session α) : Files s s.addSpace.2 := by
  intro filed
  refine ⟨⟨filed.families, filed.numbered, indices_addSpace filed.indices, fun sp mem => ?_,
    fun idle sp mem => ?_⟩, .refl _⟩
  · rcases List.mem_append.mp mem with old | new
    · exact filed.each sp old
    · obtain rfl := List.mem_singleton.mp new
      exact ⟨fun c hc => absurd hc List.not_mem_nil, fun _ => .nil⟩
  · rcases List.mem_append.mp mem with old | new
    · exact filed.idle idle sp old
    · obtain rfl := List.mem_singleton.mp new
      rfl

theorem addSpacesUpTo_files (s : Session α) (index : Nat) : Files s (s.addSpacesUpTo index) := by
  unfold addSpacesUpTo
  generalize List.range (index + 1 - s.spaces.length) = missing
  induction missing generalizing s with
  | nil => exact .refl s
  | cons _ missing ih => exact (addSpace_files s).trans (ih s.addSpace.2)

/-- Changing the sketch alone. -/
theorem files_of_retains (retains : s.sketch.Retains sk) : Files s { s with sketch := sk } :=
  have all : FilesAll s.spaces s.sketch s.spaces sk :=
    ⟨rfl, id, fun filed sp mem => (filed sp mem).retain retains, retains⟩
  all.files .inl

/-- Clearing all spaces keeps what is on file, namely nothing. -/
theorem clear_files (s : Session α) : Files s s.clear :=
  have all : FilesAll s.spaces s.sketch s.clear.spaces s.clear.sketch :=
    clearSpaces_files s.spaces s.sketch
  all.files .inl

theorem detach_files (s : Session α) (id : ConstraintId) : Files s (s.detach id).2 :=
  have all : FilesAll s.spaces s.sketch (s.detach id).2.spaces (s.detach id).2.sketch :=
    detachFrom_files id s.spaces s.sketch
  all.files .inl

/-- What is created was created on the sketch. -/
theorem create_files {kind : Kind} {ids : List EntityId}
    (created : Constraint.create s.sketch kind ids = .ok (c, sk)) :
    Files s { s with sketch := sk } ∧ (s.Filed → sk.Traces c) := by
  have retains : s.sketch.Retains sk := by
    obtain ⟨_, _, _, _, rfl⟩ := Constraint.create_ok created
    exact .of_entities rfl rfl (Nat.le_succ _)
  exact ⟨files_of_retains retains, fun filed =>
    .of_create filed.families.toDistinct created⟩

/-- What is taken out before one is not found was created on the sketch, and so was all that is
given out. -/
theorem detachEach_files : ∀ (ids : List ConstraintId) (s : Session α),
    Files s (detachEach ids s).2 ∧ ∀ cs, s.Filed → (detachEach ids s).1 = .ok cs →
      ∀ c ∈ cs, (detachEach ids s).2.sketch.Traces c
  | [], s => by
    refine ⟨.refl s, fun cs _ detached => ?_⟩
    cases detached
    exact fun c hc => absurd hc List.not_mem_nil
  | id :: ids, s => by
    have first := detach_files s id
    have traced : ∀ c, s.Filed → (s.detach id).1 = .ok c → s.sketch.Traces c :=
      fun c filed detached => traces_detachFrom filed.each detached
    unfold detachEach
    cases eq : s.detach id with
    | mk result s₁ =>
      rw [eq] at first traced
      cases result with
      | error e => exact ⟨first, fun cs _ detached => by simp at detached⟩
      | ok c =>
        obtain ⟨later, traced'⟩ := detachEach_files ids s₁
        simp only
        cases eq' : detachEach ids s₁ with
        | mk result s₂ =>
          rw [eq'] at later traced'
          cases result with
          | error e => exact ⟨first.trans later, fun cs _ detached => by simp at detached⟩
          | ok cs =>
            refine ⟨first.trans later, fun cs' filed detached => ?_⟩
            cases detached
            obtain ⟨filed₁, retains₁⟩ := first filed
            obtain ⟨_, retains₂⟩ := later filed₁
            exact List.forall_mem_cons.mpr
              ⟨(traced c filed rfl).retain (retains₁.trans retains₂), traced' cs filed₁ rfl⟩

/-- The constraints on an entity go before it, and it goes with its points. -/
theorem removeEntity_files (s : Session α) (id : EntityId) : Files s (s.removeEntity id) := by
  have detached : ∀ (ids : List ConstraintId) (s : Session α),
      Files s (ids.foldl (fun s c => (s.detach c).2) s) := by
    intro ids
    induction ids with
    | nil => exact .refl
    | cons id ids ih => exact fun s => (detach_files s id).trans (ih _)
  unfold removeEntity
  split
  next => exact .refl s
  next =>
    split
    next => exact .refl s
    next => exact (detached _ s).trans (files_of_retains (.without fun _ => Iff.rfl))

/-- What is rebuilt was created on the sketch. -/
theorem rebuild_files : ∀ (records : List Record) (s : Session α),
    Files s (rebuild records s).2 ∧ ∀ cs, s.Filed → (rebuild records s).1 = .ok cs →
      ∀ p ∈ cs, (rebuild records s).2.sketch.Traces p.2
  | [], s => by
    refine ⟨.refl s, fun cs _ rebuilt => ?_⟩
    cases rebuilt
    exact fun p mem => absurd mem List.not_mem_nil
  | r :: rest, s => by
    have spaces := addSpacesUpTo_files s (r.space.getD 0)
    unfold rebuild
    simp only
    cases made : Constraint.ofRecord (s.addSpacesUpTo (r.space.getD 0)).sketch r with
    | error e => exact ⟨spaces, fun cs _ rebuilt => by simp at rebuilt⟩
    | ok result =>
      obtain ⟨c, sketch⟩ := result
      obtain ⟨kind, created⟩ := exists_create made
      obtain ⟨files, traces⟩ := create_files created
      obtain ⟨later, traced⟩ := rebuild_files rest { s.addSpacesUpTo (r.space.getD 0) with sketch }
      have first := spaces.trans files
      simp only
      cases eq : rebuild rest { s.addSpacesUpTo (r.space.getD 0) with sketch } with
      | mk result s₁ =>
        rw [eq] at later traced
        cases result with
        | error e => exact ⟨first.trans later, fun cs _ rebuilt => by simp at rebuilt⟩
        | ok cs =>
          refine ⟨first.trans later, fun cs' filed rebuilt => ?_⟩
          cases rebuilt
          obtain ⟨filed₁, _⟩ := first filed
          obtain ⟨_, retains⟩ := later filed₁
          exact List.forall_mem_cons.mpr
            ⟨(traces (spaces filed).1).retain retains, traced cs filed₁ rfl⟩

section Prepare

variable [Zero α]

/-- Preparing sorts constraints and changes no other thing that is on file. -/
theorem prepare_files (s : Session α) (dragged : Option EntityId) (force : Bool) :
    Files s (s.prepare dragged force).2 :=
  have all : FilesAll s.spaces s.sketch (s.prepare dragged force).2.spaces
      (s.prepare dragged force).2.sketch :=
    untilFailure_files (fun sp sk => Space.prepare_files sp sk dragged force) _ _
  all.files .inl

theorem refresh_files (s : Session α) : Files s s.refresh.2 := by
  unfold refresh
  split
  next => exact .refl s
  next => exact prepare_files s none false

variable [One α] [Add α] [Sub α] [Mul α] [Div α] [Neg α] [LT α] [LE α] [BEq α]
variable [DecidableLT α] [DecidableLE α] [Elementary α]

/-! ## Solving -/

/-- Solving changes values and scratch, and no constraint. -/
theorem solve_files (s : Session α) (rough : Bool) : Files s (s.solve rough).2 := by
  unfold solve
  split
  next => exact .refl s
  next =>
    simp only
    obtain ⟨locked, eq⟩ :=
      s.lockOn_eq (onEach (fun (sp : Space α) sk => sp.solveNow sk rough) s.spaces s.sketch)
    rw [eq]
    exact FilesAll.files (onEach_files (fun sp sk => Space.solve_files sp sk rough) _ _) .inl

/-- All spaces are solved, and then none of them puts off solving. -/
theorem finishTransaction_files (s : Session α) : Files s s.finishTransaction.2 := by
  have ended : Files s (lockOn { s with inTransaction := false }
      (onEach (fun (sp : Space α) sk => sp.finishTransaction sk) s.spaces s.sketch)).2 := by
    obtain ⟨locked, eq⟩ := lockOn_eq { s with inTransaction := false }
      (onEach (fun (sp : Space α) sk => sp.finishTransaction sk) s.spaces s.sketch)
    rw [eq]
    refine FilesAll.files (onEach_files (fun sp sk => (Space.finishTransaction_files sp sk).1) _ _)
      fun _ => .inr (forall_onEach (fun sp sk => (Space.finishTransaction_files sp sk).2) _ _)
  unfold finishTransaction
  simp only
  split
  next eq =>
    rw [eq] at ended
    exact ended
  next eq =>
    rw [eq] at ended
    exact ended.trans (refresh_files _)

theorem solveFine_files (s : Session α) : Files s s.solveFine.2 := by
  unfold solveFine
  split
  next => exact .refl s
  next =>
    have unlocked : Files s { s with locked := false } := fun filed =>
      ⟨⟨filed.families, filed.numbered, filed.indices, filed.each, filed.idle⟩, .refl s.sketch⟩
    have prepared := unlocked.trans (prepare_files _ none true)
    split
    next eq =>
      rw [eq] at prepared
      exact prepared
    next eq =>
      rw [eq] at prepared
      exact prepared.trans (solve_files _ false)

theorem drag_files (s : Session α) (id : EntityId) (dx dy : α) : Files s (s.drag id dx dy).2 := by
  have prepared := prepare_files s (some id) s.locked
  unfold drag
  split
  next eq =>
    rw [eq] at prepared
    exact prepared
  next s₁ eq =>
    rw [eq] at prepared
    split
    next => exact prepared
    next sketch moved =>
      have moved' : Files s₁ { s₁ with sketch } := files_of_retains (.translate moved)
      exact (prepared.trans moved').trans (solve_files _ true)

/-! ## Adding and removing -/

/-- A constraint that was created on the sketch may be added, accepted or not. -/
theorem addToSpace_files {index : Nat} (traces : s.sketch.Traces c) :
    Files s (s.addToSpace index c).2 := by
  unfold addToSpace space
  cases at' : s.spaces[index]? with
  | none => exact .refl s
  | some sp =>
    obtain ⟨pre, post, split, _, set⟩ := exists_set at'
    have added := Space.addConstraint_files sp s.sketch traces
    refine FilesAll.files ?_ .inl
    simp only
    rw [set, split]
    exact .middle added pre

/-- Each constraint of a batch was created on the sketch, and stays so while others are added. -/
theorem addEach_files : ∀ {cs : List (Nat × Constraint)} {s : Session α},
    (∀ p ∈ cs, s.sketch.Traces p.2) → Files s (addEach cs s).2
  | [], s, _ => .refl s
  | (index, c) :: rest, s, traces => by
    obtain ⟨first, later⟩ := List.forall_mem_cons.mp traces
    have added : Files s (s.addToSpace index c).2 := addToSpace_files first
    intro filed
    obtain ⟨filed', retains⟩ := added filed
    have each := addEach_files fun p mem => (later p mem).retain retains
    have both := (added.trans each) filed
    unfold addEach
    cases eq : s.addToSpace index c with
    | mk result s₁ =>
      rw [eq] at added both
      cases result with
      | error e => exact added filed
      | ok _ =>
        simp only
        split
        next eq' =>
          rw [eq'] at both
          exact both
        next eq' =>
          rw [eq'] at both
          exact both

/-- Adding as a batch is adding one after the other in a transaction. -/
theorem addBatch_files {cs : List (Nat × Constraint)} (traces : ∀ p ∈ cs, s.sketch.Traces p.2) :
    Files s (s.addBatch cs).2 := by
  have each := (startTransaction_files s).trans (addEach_files traces)
  unfold addBatch
  split
  next eq =>
    rw [eq] at each
    exact each.trans (finishTransaction_files _)
  next eq =>
    rw [eq] at each
    exact each.trans (finishTransaction_files _)

theorem addConstraints_files (traces : ∀ c ∈ cs, s.sketch.Traces c) :
    Files s (s.addConstraints cs).2 := by
  refine addBatch_files fun p mem => ?_
  obtain ⟨c, hc, rfl⟩ := List.mem_map.mp mem
  exact traces c hc

/-- What is created for entities of the sketch may be added to it. -/
theorem constrain_files (s : Session α) (kind : Kind) (ids : List EntityId) :
    Files s (s.constrain kind ids).2 := by
  unfold constrain
  split
  next => exact .refl s
  next created =>
    obtain ⟨files, traces⟩ := create_files created
    intro filed
    exact (files.trans (addToSpace_files (traces filed))) filed

theorem constrainDecorated_files (s : Session α) (kind : Kind) (ids : List EntityId) :
    Files s (s.constrainDecorated kind ids).2 := by
  unfold constrainDecorated
  split
  next => exact .refl s
  next c sketch created =>
    obtain ⟨files, traces⟩ := create_files created
    have decorated : sketch.Retains sketch.decorate.2 :=
      .of_entities rfl rfl (Nat.le_refl _)
    intro filed
    have kept := (traces filed).retain decorated
    refine ((files.trans (files_of_retains decorated)).trans (addToSpace_files ?_)) filed
    exact kept.redress _ c.space

/-- What is given out was created on the sketch, which has only been solved since. -/
theorem removeConstraints_files (s : Session α) (ids : List ConstraintId) :
    Files s (s.removeConstraints ids).2 ∧ ∀ cs, s.Filed → (s.removeConstraints ids).1 = .ok cs →
      ∀ c ∈ cs, (s.removeConstraints ids).2.sketch.Traces c := by
  have detached := detachEach_files ids s
  unfold removeConstraints
  generalize detachEach ids s = r at detached
  obtain ⟨_ | removed, s₁⟩ := r
  · exact ⟨detached.1, fun cs _ eq => by simp at eq⟩
  · have solved := solveFine_files s₁
    simp only
    generalize s₁.solveFine = r at solved
    obtain ⟨_ | _, s₂⟩ := r
    · exact ⟨detached.1.trans solved, fun cs _ eq => by simp at eq⟩
    · have refreshed := solved.trans (refresh_files s₂)
      simp only
      generalize s₂.refresh = r at refreshed
      obtain ⟨_ | _, s₃⟩ := r
      · exact ⟨detached.1.trans refreshed, fun cs _ eq => by simp [Except.map] at eq⟩
      · refine ⟨detached.1.trans refreshed, fun cs filed eq c hc => ?_⟩
        cases eq
        obtain ⟨filed₁, _⟩ := detached.1 filed
        exact (detached.2 removed filed rfl c hc).retain (refreshed filed₁).2

/-- Removing entities is a transaction around the removals. -/
theorem removeEntities_files (s : Session α) (ids : List EntityId) :
    Files s (s.removeEntities ids).2 := by
  have removed : ∀ (ids : List EntityId) (s : Session α), Files s (ids.foldl removeEntity s) := by
    intro ids
    induction ids with
    | nil => exact .refl
    | cons id ids ih => exact fun s => (removeEntity_files s id).trans (ih _)
  exact ((startTransaction_files s).trans (removed ids _)).trans (finishTransaction_files _)

/-! ## Restoring -/

/-- What records describe is created on the sketch, and then added as a batch. -/
theorem restore_files (s : Session α) (records : List Record) :
    Files s (s.restore records).2 := by
  obtain ⟨files, traces⟩ := rebuild_files records s
  unfold restore
  split
  next eq =>
    rw [eq] at files
    exact files
  next cs s₁ eq =>
    rw [eq] at files traces
    intro filed
    exact (files.trans (addBatch_files (traces cs filed rfl))) filed

end Prepare

end Session

end SketchSolver
