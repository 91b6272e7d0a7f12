import SketchSolver.Proofs.Session.Matching
import SketchSolver.Proofs.Session.Upkeep

/-!
# What a transaction puts off

Whether solving is put off is written down twice: in the session, and in every space.
A transaction begins by telling all spaces, and a space that is appended later is not
told. So while a transaction is open, it puts off the solves of exactly the spaces that
were there when it began (`deferred_run`), and a constraint that is added to a later one
is solved for at once (`not_deferred_lateLevel`).

The invariant of an open transaction is `Deferring`: the session is not locked, it puts
off solving, and of its spaces the first ones do so too, as many as there were in the
beginning. `waiting` is the list of these flags. Every operation that may take place in a
transaction leaves the lock and the flags as they are (`Alike`), or appends a flag that is
not set. No assumption is made about constraints or about the sketch.

Whether parameters change is followed beside it (`Untouched`). Creating a constraint,
taking one out, and adding one to a space that waits do not touch any of them, not even
their ids. Adding one to a space that does not wait prepares and solves it, so nothing can
be said. Removing constraints would solve finely in a locked session, and that is why the
session must not be locked; in one that is not locked it ends before it prepares anything.

An operation is `Late` when it adds to a space that is not among the first. `deferred_run`
says for each operation of a run that it leaves all parameters alone unless it is late, and
for the whole run that it does if none of them is.
-/

namespace SketchSolver

variable {α : Type}

namespace Session

variable {s s' s'' : Session α} {n : Nat}

/-- Which spaces put off solving, in order. -/
def waiting (s : Session α) : List Bool := s.spaces.map (·.inTransaction)

/-- Which spaces wait is kept where each space keeps it. -/
theorem waiting_of_kept {spaces spaces' : List (Space α)}
    (each : List.Forall₂ Space.Kept spaces spaces') :
    spaces'.map (·.inTransaction) = spaces.map (·.inTransaction) := by
  induction each with
  | nil => rfl
  | cons first _ ih => rw [List.map_cons, List.map_cons, first.inTransaction, ih]

/-- The session is locked and puts off solving as before, and so do its spaces. -/
structure Alike (s s' : Session α) : Prop where
  locked : s'.locked = s.locked
  inTransaction : s'.inTransaction = s.inTransaction
  waiting : s'.waiting = s.waiting

/-- Moreover all parameters are what they were. -/
structure Untouched (s s' : Session α) : Prop extends Alike s s' where
  store : s'.sketch.store = s.sketch.store

theorem Alike.refl (s : Session α) : Alike s s := ⟨rfl, rfl, rfl⟩

theorem Alike.trans (h₁ : Alike s s') (h₂ : Alike s' s'') : Alike s s'' :=
  ⟨h₂.locked.trans h₁.locked, h₂.inTransaction.trans h₁.inTransaction, h₂.waiting.trans h₁.waiting⟩

theorem Untouched.refl (s : Session α) : Untouched s s := ⟨.refl s, rfl⟩

theorem Untouched.trans (h₁ : Untouched s s') (h₂ : Untouched s' s'') : Untouched s s'' :=
  ⟨h₁.toAlike.trans h₂.toAlike, h₂.store.trans h₁.store⟩

/-- Creating a constraint gives out an id. -/
theorem create_untouched {kind : Kind} {ids : List EntityId} {c : Constraint} {sketch : Sketch α}
    (created : Constraint.create s.sketch kind ids = .ok (c, sketch)) :
    Untouched s { s with sketch } := by
  obtain ⟨_, _, _, _, rfl⟩ := Constraint.create_ok created
  exact ⟨⟨rfl, rfl, rfl⟩, rfl⟩

/-! ## Taking out -/

/-- Taking a constraint out of a space touches no parameter. -/
theorem store_removeConstraint (sp : Space α) (sk : Sketch α) (id : ConstraintId) :
    (sp.removeConstraint sk id).2.2.store = sk.store := by
  cases found : sp.constraint? id with
  | none =>
    unfold Space.removeConstraint
    rw [found]
  | some c =>
    rw [Space.removeConstraint_eq sk found, Constraint.undecorate_eq]
    rfl

/-- Taking a constraint out of the first space that hosts it touches no parameter. -/
theorem store_detachFrom (id : ConstraintId) : ∀ (spaces : List (Space α)) (sk : Sketch α),
    (detachFrom id spaces sk).2.2.store = sk.store
  | [], _ => rfl
  | sp :: rest, sk => by
    unfold detachFrom
    split
    next => exact store_removeConstraint sp sk id
    next => exact store_detachFrom id rest sk

/-- Neither flags nor parameters change when a constraint is taken out. -/
theorem detach_untouched (s : Session α) (id : ConstraintId) : Untouched s (s.detach id).2 := by
  have each := detachFrom_kept id s.spaces s.sketch
  exact ⟨⟨rfl, rfl, waiting_of_kept each⟩, store_detachFrom id s.spaces s.sketch⟩

/-- The same for one constraint after the other, until one is not found. -/
theorem detachEach_untouched : ∀ (ids : List ConstraintId) (s : Session α),
    Untouched s (detachEach ids s).2
  | [], s => .refl s
  | id :: ids, s => by
    have first := detach_untouched s id
    unfold detachEach
    generalize s.detach id = r at first
    obtain ⟨_ | _, s₁⟩ := r
    · exact first
    · have later := detachEach_untouched ids s₁
      simp only
      generalize detachEach ids s₁ = r at later
      obtain ⟨_ | _, s₂⟩ := r
      · exact first.trans later
      · exact first.trans later

variable [Zero α] [One α] [Add α] [Sub α] [Mul α] [Div α] [Neg α] [LT α] [LE α] [BEq α]
variable [DecidableLT α] [DecidableLE α] [Elementary α]

/-- When solving is put off in an unlocked session, removing constraints is taking them out. -/
theorem removeConstraints_untouched (ids : List ConstraintId) (unlocked : s.locked = false)
    (busy : s.inTransaction = true) : Untouched s (s.removeConstraints ids).2 := by
  have detached := detachEach_untouched ids s
  unfold removeConstraints
  generalize detachEach ids s = r at detached
  obtain ⟨_ | removed, s₁⟩ := r
  · exact detached
  · -- there is no lock to clear, and a refresh waits for the end
    have unlocked : s₁.locked = false := detached.locked.trans unlocked
    have busy : s₁.inTransaction = true := detached.inTransaction.trans busy
    simp only
    rw [solveFine_of_unlocked unlocked]
    simp only
    unfold refresh
    rw [if_pos busy]
    exact detached

/-! ## Adding -/

/-- An addition changes no flag, even if it is tried out. -/
theorem addToSpace_alike (s : Session α) (index : Nat) (c : Constraint) :
    Alike s (s.addToSpace index c).2 := by
  unfold addToSpace space
  cases found : s.spaces[index]? with
  | none => exact .refl s
  | some sp =>
    refine ⟨rfl, rfl, ?_⟩
    obtain ⟨pre, post, split, _, set⟩ := exists_set found
    have kept := (Space.addConstraint_kept sp s.sketch c).inTransaction
    unfold waiting
    simp only
    rw [set, split, List.map_append, List.map_append, List.map_cons, List.map_cons, kept]

/-- A space that puts off solving takes a constraint in and moves nothing. -/
theorem addToSpace_untouched (index : Nat) (c : Constraint)
    (waits : ∀ sp, s.spaces[index]? = some sp → sp.inTransaction = true) :
    Untouched s (s.addToSpace index c).2 := by
  refine ⟨addToSpace_alike s index c, ?_⟩
  unfold addToSpace space
  cases found : s.spaces[index]? with
  | none => rfl
  | some sp =>
    unfold Space.addConstraint
    simp only
    rw [if_pos (waits sp found)]
    rfl

end Session

namespace Operation

open Session

variable {op : Operation α} {s : Session α} {n : Nat}

/-- What is deferred in a transaction: constraints are created, added and removed, and spaces appended. -/
def Deferred (op : Operation α) : Prop :=
  match op with
  | create _ _ | add _ _ | constrain _ _ | constrainDecorated _ _ | removeConstraints _
  | addSpace => True
  | _ => False

/-- The index of the space that a constraint is added to. -/
def target? (op : Operation α) : Option Nat :=
  match op with
  | add index _ => some index
  | constrain _ _ | constrainDecorated _ _ => some 0
  | _ => none

/-- The operation adds a constraint to a space that is not among the first `n`. -/
def Late (n : Nat) (op : Operation α) (s : Session α) : Prop :=
  ∃ index, op.target? = some index ∧ n ≤ index ∧ index < s.spaces.length

/-- A transaction is open that began when there were `n` spaces, in a session that is not locked. -/
structure Deferring (n : Nat) (s : Session α) : Prop where
  unlocked : s.locked = false
  inTransaction : s.inTransaction = true
  waiting : ∃ late, s.waiting = List.replicate n true ++ List.replicate late false

namespace Deferring

/-- Sessions that are alike defer alike. -/
theorem of_alike {s' : Session α} (deferring : Deferring n s) (alike : Alike s s') :
    Deferring n s' :=
  ⟨alike.locked.trans deferring.unlocked, alike.inTransaction.trans deferring.inTransaction,
    alike.waiting ▸ deferring.waiting⟩

/-- Opening a transaction tells all spaces that there are. -/
theorem startTransaction (unlocked : s.locked = false) :
    Deferring s.spaces.length s.startTransaction := by
  refine ⟨unlocked, rfl, 0, ?_⟩
  unfold Session.waiting Session.startTransaction
  simp only
  rw [List.map_map, List.replicate_zero, List.append_nil]
  exact List.map_const'

/-- A space that is appended is not told. -/
theorem addSpace (deferring : Deferring n s) : Deferring n s.addSpace.2 := by
  obtain ⟨late, waiting⟩ := deferring.waiting
  refine ⟨deferring.unlocked, deferring.inTransaction, late + 1, ?_⟩
  show (s.spaces ++ [_]).map _ = _
  rw [List.map_append, List.replicate_succ', ← List.append_assoc, ← waiting]
  rfl

/-- The spaces that were there put off solving, and no others do. -/
theorem waits_iff (deferring : Deferring n s) {index : Nat} {sp : Space α}
    (at' : s.spaces[index]? = some sp) : sp.inTransaction = true ↔ index < n := by
  obtain ⟨late, waiting⟩ := deferring.waiting
  have flag : s.waiting[index]? = some sp.inTransaction := by
    unfold Session.waiting
    rw [List.getElem?_map, at']
    rfl
  rw [waiting, List.getElem?_append, List.length_replicate] at flag
  split at flag
  next old =>
    rw [List.getElem?_replicate_of_lt old, Option.some.injEq] at flag
    exact iff_of_true flag.symm old
  next late =>
    have isLate := List.mem_of_getElem? flag
    rw [List.eq_of_mem_replicate isLate]
    simpa using late

end Deferring

variable [Zero α] [One α] [Add α] [Sub α] [Mul α] [Div α] [Neg α] [LT α] [LE α] [BEq α]
variable [DecidableLT α] [DecidableLE α] [Elementary α]

/-- One operation: the transaction stays open, and unless a constraint is added to a later space, no
parameter changes. -/
theorem Deferring.apply (deferring : Deferring n s) (deferred : op.Deferred) :
    Deferring n (op.apply s) ∧ (¬ op.Late n s → (op.apply s).sketch.store = s.sketch.store) := by
  -- adding to the space at an index, after the constraint was created
  have adds : ∀ (t : Session α) index c, Untouched s t → op.target? = some index →
      t.spaces = s.spaces → Deferring n (t.addToSpace index c).2 ∧
        (¬ op.Late n s → (t.addToSpace index c).2.sketch.store = s.sketch.store) := by
    intro t index c created target spaces
    refine ⟨deferring.of_alike (created.toAlike.trans (addToSpace_alike t index c)), fun early => ?_⟩
    have waits : ∀ sp, t.spaces[index]? = some sp → sp.inTransaction = true := by
      intro sp at'
      rw [spaces] at at'
      obtain ⟨bound, _⟩ := List.getElem?_eq_some_iff.mp at'
      refine (deferring.waits_iff at').mpr (Nat.lt_of_not_le fun late => early ?_)
      exact ⟨index, target, late, bound⟩
    exact (created.trans (addToSpace_untouched index c waits)).store
  cases op with
  | create kind ids =>
    unfold Operation.apply
    simp only
    split
    next => exact ⟨deferring, fun _ => rfl⟩
    next created =>
      have untouched := create_untouched created
      exact ⟨deferring.of_alike untouched.toAlike, fun _ => untouched.store⟩
  | add index c => exact adds s index c (.refl s) rfl rfl
  | constrain kind ids =>
    unfold Operation.apply Session.constrain
    simp only
    split
    next => exact ⟨deferring, fun _ => rfl⟩
    next c sketch created => exact adds { s with sketch } 0 c (create_untouched created) rfl rfl
  | constrainDecorated kind ids =>
    unfold Operation.apply Session.constrainDecorated
    simp only
    split
    next => exact ⟨deferring, fun _ => rfl⟩
    next c sketch created =>
      have decorated : Untouched { s with sketch } { s with sketch := sketch.decorate.2 } :=
        ⟨⟨rfl, rfl, rfl⟩, rfl⟩
      exact adds _ 0 { c with decoration := some sketch.decorate.1 }
        ((create_untouched created).trans decorated) rfl rfl
  | removeConstraints ids =>
    have untouched := removeConstraints_untouched ids deferring.unlocked deferring.inTransaction
    exact ⟨deferring.of_alike untouched.toAlike, fun _ => untouched.store⟩
  | addSpace => exact ⟨deferring.addSpace, fun _ => rfl⟩
  | _ => exact deferred.elim

/-- What a transaction puts off, by induction on the operations in it. -/
theorem Deferring.run : ∀ {ops : List (Operation α)} {s : Session α}, Deferring n s →
    (∀ op ∈ ops, op.Deferred) → Deferring n (run ops s) ∧
      Throughout (fun op s => ¬ op.Late n s → (op.apply s).sketch.store = s.sketch.store) ops s ∧
      (Throughout (fun op s => ¬ op.Late n s) ops s →
        (Operation.run ops s).sketch.store = s.sketch.store)
  | [], _, deferring, _ => ⟨deferring, trivial, fun _ => rfl⟩
  | op :: ops, s, deferring, deferred => by
    obtain ⟨next, still⟩ := deferring.apply (deferred op List.mem_cons_self)
    obtain ⟨last, each, all⟩ := Deferring.run (s := op.apply s) next
      fun later mem => deferred later (List.mem_cons_of_mem _ mem)
    refine ⟨last, ⟨still, each⟩, fun ⟨early, rest⟩ => ?_⟩
    exact (all rest).trans (still early)

/-- **An open transaction puts off the solves of the spaces that were there when it began**, and of no
others. No operation changes a parameter but one that adds a constraint to a later space, so if there
is none, all parameters are in the end what they were in the beginning. -/
theorem deferred_run {ops : List (Operation α)} (unlocked : s.locked = false)
    (deferred : ∀ op ∈ ops, op.Deferred) :
    (∀ index sp, (run ops s.startTransaction).spaces[index]? = some sp →
      (sp.inTransaction = true ↔ index < s.spaces.length)) ∧
    Throughout (fun op t => ¬ op.Late s.spaces.length t →
      (op.apply t).sketch.store = t.sketch.store) ops s.startTransaction ∧
    (Throughout (fun op t => ¬ op.Late s.spaces.length t) ops s.startTransaction →
      (run ops s.startTransaction).sketch.store = s.sketch.store) := by
  obtain ⟨last, each, all⟩ := (Deferring.startTransaction unlocked).run deferred
  exact ⟨fun index sp at' => last.waits_iff at', each, all⟩

/-- The segment is to be level, and then it is not, and a space is appended in between. -/
def earlyLevel : List (Operation Float) :=
  [.constrain .horizontal [⟨3⟩], .addSpace, .removeConstraints [⟨1⟩]]

/-- None of the operations is late, and the segment stays where it is. -/
theorem deferred_earlyLevel :
    (Session.create Space.oneSegment Settings.standard).locked = false ∧
    (∀ op ∈ earlyLevel, op.Deferred) ∧
    (run earlyLevel (Session.create Space.oneSegment
      Settings.standard).startTransaction).sketch.store = Space.oneSegment.store := by
  have deferred : ∀ op ∈ earlyLevel, op.Deferred := by simp [earlyLevel, Deferred]
  obtain ⟨_, _, all⟩ := deferred_run (s := Session.create Space.oneSegment Settings.standard) rfl
    deferred
  refine ⟨rfl, deferred, all ⟨?_, ?_, ?_, trivial⟩⟩
  · -- the constraint goes to the first space, which was there
    rintro ⟨index, target, late, _⟩
    obtain rfl := Option.some.inj target
    exact absurd late (by decide)
  · rintro ⟨index, target, _⟩
    cases target
  · rintro ⟨index, target, _⟩
    cases target

/-- A space is appended in a transaction, and the segment is to be level there. -/
def lateLevel : List (Operation Float) :=
  [.addSpace, .create .horizontal [⟨3⟩], .add 1 levelDemand]

/-- **An open transaction does not put off every solve**: an end of the segment has moved before the
transaction ends. -/
theorem not_deferred_lateLevel :
    (∀ op ∈ lateLevel, op.Deferred) ∧
    (Session.create Space.oneSegment Settings.standard).locked = false ∧
    (run lateLevel
      (Session.create Space.oneSegment Settings.standard).startTransaction).inTransaction = true ∧
    (run lateLevel (Session.create Space.oneSegment
      Settings.standard).startTransaction).sketch.store.value ⟨1⟩ ≠
        Space.oneSegment.store.value ⟨1⟩ := by
  refine ⟨by simp [lateLevel, Deferred], rfl, by decide +kernel, fun same => ?_⟩
  have moved : ((run lateLevel (Session.create Space.oneSegment
      Settings.standard).startTransaction).sketch.store.value ⟨1⟩ == 0) = false := by
    decide +kernel
  rw [same] at moved
  have origin : (Space.oneSegment.store.value ⟨1⟩ == 0) = true := by decide +kernel
  rw [origin] at moved
  cases moved

end Operation

end SketchSolver
