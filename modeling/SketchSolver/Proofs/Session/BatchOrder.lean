import SketchSolver.Proofs.AscendingSets
import SketchSolver.Proofs.Session.Records
import SketchSolver.Proofs.StableSort

/-!
# The order of kinds in a batch

A batch is written down in one order, and solved in another: closing it sorts the
constraints of each space by kind. Two things see the order in which they were
written. The constraints wait at the end of the space, where the sort brings both
orders to the same list when those of one kind come in the same order
(`Space.sortConstraints_awaiting`). And they are registered one after the other on
their entities, which comes to the same whatever the order is, because a set of
constraints is kept ascending (`Sketch.registerAll_perm`).

So the closing preparation finds the same sketch and sorts to the same lists, and
from there on both runs are one (`addConstraints_reordered`). Nothing is asked of
the session: it may be locked, in a transaction, or have no space at all. In the last
case nothing is added and both runs fail alike (`addEach_spaceless`).

That a stable sort forgets how kinds were interleaved is a fact about stable sorts. What is
needed to use it is that both orders have the same constraints of each code, in the same
order (`Constraint.Reordered.codes`); codes and kinds determine each other, so it is
enough to ask for it kind by kind.

The ids that are returned are in the order in which the constraints were given, and so
they are permuted as the constraints are. This is part of the statement.
-/

namespace SketchSolver

variable {α : Type}

/-- Two orders of the same constraints, with those of one kind in the same order. -/
structure Constraint.Reordered (cs cs' : List Constraint) : Prop where
  perm : cs.Perm cs'
  kinds : ∀ kind, cs.filter (·.kind = kind) = cs'.filter (·.kind = kind)

/-- Different kinds have different codes. -/
theorem Kind.code_injective {k l : Kind} (same : k.code = l.code) : k = l := by
  have both := Kind.ofCode?_code k
  rw [same, Kind.ofCode?_code l] at both
  exact (Option.some.inj both).symm

/-! ## Sorting -/

/-- The constraints with one code are those of one kind, or none. -/
theorem Constraint.Reordered.codes {cs cs' : List Constraint} (reordered : Reordered cs cs')
    (code : Nat) :
    cs.filter (fun c => c.kind.code = code) = cs'.filter fun c => c.kind.code = code := by
  by_cases known : ∃ kind : Kind, kind.code = code
  · obtain ⟨kind, rfl⟩ := known
    have test : ∀ c : Constraint, (c.kind.code = kind.code) = (c.kind = kind) := fun c =>
      propext ⟨Kind.code_injective, congrArg Kind.code⟩
    simp only [test]
    exact reordered.kinds kind
  · have none : ∀ ds : List Constraint, ds.filter (fun c => c.kind.code = code) = [] := fun ds =>
      List.filter_eq_nil_iff.mpr fun c _ => by simpa using fun same => known ⟨c.kind, same⟩
    rw [none, none]

namespace Space

variable {cs cs' : List Constraint}

/-- The space with constraints waiting at its end. -/
def awaiting (sp : Space α) (cs : List Constraint) : Space α :=
  { sp with constraints := sp.constraints ++ cs.map sp.hostedBy }

theorem awaiting_nil (sp : Space α) : sp.awaiting [] = sp := by
  unfold awaiting
  rw [List.map_nil, List.append_nil]

/-- Constraints may be put at the end one after the other. -/
theorem awaiting_cons (sp : Space α) (c : Constraint) (cs : List Constraint) :
    (sp.awaiting [c]).awaiting cs = sp.awaiting (c :: cs) := by
  unfold awaiting
  simp only [List.map_cons, List.map_nil, List.append_assoc, List.singleton_append]
  rfl

/-- What a space hosts is sorted to the same list, whichever of both orders waits at its end. -/
theorem sortConstraints_awaiting (reordered : Constraint.Reordered cs cs') (sp : Space α) :
    sortConstraints (sp.awaiting cs).constraints =
      sortConstraints (sp.awaiting cs').constraints := by
  refine eq_of_classes (sorted_sortConstraints _) (sorted_sortConstraints _) fun code => ?_
  unfold sortConstraints awaiting
  rw [class_mergeSort, class_mergeSort, List.filter_append, List.filter_append]
  have hosted : ∀ ds : List Constraint,
      (ds.map sp.hostedBy).filter (fun c => c.kind.code = code) =
        (ds.filter fun c => c.kind.code = code).map sp.hostedBy := fun ds => List.filter_map
  rw [hosted, hosted, reordered.codes code]

/-- A forced preparation sorts what waits, so it does not see in which order it waits. -/
theorem prepare_awaiting [Zero α] (reordered : Constraint.Reordered cs cs') (sp : Space α)
    (sk : Sketch α) :
    (sp.awaiting cs).prepare sk none true = (sp.awaiting cs').prepare sk none true := by
  have sorted := sortConstraints_awaiting reordered sp
  unfold prepare
  simp only [Option.isSome_none, Bool.false_and, Bool.false_eq_true, if_false]
  rw [sorted]
  rfl

end Space

/-! ## Registering -/

namespace Sketch

instance : Std.Asymm (α := ConstraintId) (· < ·) where
  asymm c d below above := by
    have below : c.number < d.number := below
    have above : d.number < c.number := above
    omega

instance : Trans (α := ConstraintId) (· < ·) (· < ·) (· < ·) where
  trans below above := Nat.lt_trans below above

/-- The sketch with constraints registered on their entities, one after the other. -/
def registerAll (sk : Sketch α) (cs : List Constraint) : Sketch α :=
  cs.foldl (fun sk c => sk.register c.id c.entities) sk

/-- Two constraints may be registered in either order. -/
theorem register_comm (sk : Sketch α) (c d : ConstraintId) (ids ids' : List EntityId) :
    (sk.register c ids).register d ids' = (sk.register d ids').register c ids := by
  have affected (c : ConstraintId) (ids ids' : List EntityId) :
      ids'.flatMap (sk.register c ids).subtree = ids'.flatMap sk.subtree :=
    congrArg (ids'.flatMap ·) (funext fun id => subtree_changeConstraints sk ids _ id)
  show Sketch.changeConstraints (sk.register c ids) ids' (Ascending.insert d) =
    Sketch.changeConstraints (sk.register d ids') ids (Ascending.insert c)
  unfold changeConstraints
  simp only [affected]
  simp only [register, changeConstraints, List.map_map]
  congr 1
  refine List.map_congr_left fun e _ => ?_
  by_cases first : e.id ∈ ids.flatMap sk.subtree
  · by_cases second : e.id ∈ ids'.flatMap sk.subtree
    · simp only [Function.comp_apply, if_pos first, if_pos second]
      rw [Ascending.insert_comm]
    · simp only [Function.comp_apply, if_pos first, if_neg second]
  · by_cases second : e.id ∈ ids'.flatMap sk.subtree
    · simp only [Function.comp_apply, if_neg first, if_pos second]
    · simp only [Function.comp_apply, if_neg first, if_neg second]

/-- It does not matter in which order constraints are registered. -/
theorem registerAll_perm {cs cs' : List Constraint} (perm : cs.Perm cs') (sk : Sketch α) :
    sk.registerAll cs = sk.registerAll cs' :=
  perm.foldl_eq' (fun _ _ _ _ sk => register_comm sk ..) sk

end Sketch

namespace Session

section Solve

variable [Zero α] [One α] [Add α] [Sub α] [Mul α] [Div α] [Neg α] [LT α] [LE α] [BEq α]
variable [DecidableLT α] [DecidableLE α] [Elementary α]

/-! ## One outcome -/

/-- In a transaction a constraint for the first space waits at its end. -/
theorem addToSpace_awaiting {s : Session α} {sp : Space α} {rest : List (Space α)}
    (spaces : s.spaces = sp :: rest) (busy : sp.inTransaction = true) (c : Constraint) :
    s.addToSpace 0 c = (.ok c.id, { s with
      spaces := sp.awaiting [c] :: rest
      sketch := s.sketch.register c.id c.entities }) := by
  unfold addToSpace space Space.addConstraint
  rw [spaces]
  simp only [List.getElem?_cons_zero]
  rw [if_pos busy]
  rfl

/-- In a transaction a batch for the first space waits at its end. -/
theorem addEach_awaiting : ∀ {cs : List Constraint} {s : Session α} {sp : Space α}
    {rest : List (Space α)}, s.spaces = sp :: rest → sp.inTransaction = true →
    addEach (cs.map fun c => (0, c)) s = (.ok (cs.map (·.id)),
      { s with spaces := sp.awaiting cs :: rest, sketch := s.sketch.registerAll cs })
  | [], s, sp, rest, spaces, _ => by
    rw [Space.awaiting_nil, ← spaces]
    rfl
  | c :: cs, s, sp, rest, spaces, busy => by
    have first : ({ s with
        spaces := sp.awaiting [c] :: rest
        sketch := s.sketch.register c.id c.entities } : Session α).spaces =
          sp.awaiting [c] :: rest := rfl
    rw [List.map_cons, addEach, addToSpace_awaiting spaces busy]
    simp only
    rw [addEach_awaiting first busy, Space.awaiting_cons]
    rfl

/-- Ending a transaction does not see in which order constraints wait in the first space. -/
theorem finishTransaction_awaiting {cs cs' : List Constraint}
    (reordered : Constraint.Reordered cs cs') (s : Session α) (sp : Space α)
    (rest : List (Space α)) :
    ({ s with spaces := sp.awaiting cs :: rest } : Session α).finishTransaction =
      ({ s with spaces := sp.awaiting cs' :: rest } : Session α).finishTransaction := by
  have first : (sp.awaiting cs).finishTransaction s.sketch =
      (sp.awaiting cs').finishTransaction s.sketch := by
    have prepared : ({ sp.awaiting cs with inTransaction := false } : Space α).prepare
          s.sketch none true =
        ({ sp.awaiting cs' with inTransaction := false } : Space α).prepare s.sketch none true :=
      Space.prepare_awaiting reordered { sp with inTransaction := false } s.sketch
    unfold Space.finishTransaction
    rw [prepared]
  have all : onEach (fun (sp : Space α) sk => sp.finishTransaction sk)
        (sp.awaiting cs :: rest) s.sketch =
      onEach (fun (sp : Space α) sk => sp.finishTransaction sk)
        (sp.awaiting cs' :: rest) s.sketch := by
    unfold onEach
    rw [first]
  unfold finishTransaction
  simp only
  rw [all]
  rfl

/-- Without any space the first addition fails, and changes nothing. -/
theorem addEach_spaceless {cs : List Constraint} {s : Session α} (spaces : s.spaces = [])
    (some : cs ≠ []) :
    addEach (cs.map fun c => (0, c)) s = (.error (.spaceNotFound 0), s) := by
  obtain ⟨c, cs, rfl⟩ := List.exists_cons_of_ne_nil some
  have missing : s.addToSpace 0 c = (.error (.spaceNotFound 0), s) := by
    unfold addToSpace space
    rw [spaces]
    rfl
  rw [List.map_cons, addEach, missing]

/-- **The order of kinds in a batch does not matter.** Two orders of a list of constraints, with
those of one kind in the same order, are added with the same outcome: the same failure, or the ids
in the order of the list, and in either case the same session afterwards, with all its spaces,
loaded problems, registrations and parameters. -/
theorem addConstraints_reordered (s : Session α) {cs cs' : List Constraint}
    (reordered : Constraint.Reordered cs cs') :
    ∃ (outcome : Except (Failure α) Unit) (t : Session α),
      s.addConstraints cs = (outcome.map fun _ => cs.map (·.id), t) ∧
      s.addConstraints cs' = (outcome.map fun _ => cs'.map (·.id), t) := by
  unfold addConstraints addBatch
  cases spaces : s.spaces with
  | nil =>
    have none : s.startTransaction.spaces = [] := by
      unfold startTransaction
      rw [spaces]
      rfl
    -- without a space a batch fails on its first constraint, unless it has none
    by_cases empty : cs = []
    · subst empty
      rw [List.nil_perm.mp reordered.perm]
      exact ⟨s.startTransaction.finishTransaction.1, s.startTransaction.finishTransaction.2,
        rfl, rfl⟩
    · have some : cs' ≠ [] := fun empty' => empty (List.perm_nil.mp (empty' ▸ reordered.perm))
      rw [addEach_spaceless none empty, addEach_spaceless none some]
      exact ⟨.error (.spaceNotFound 0), s.startTransaction.finishTransaction.2, rfl, rfl⟩
  | cons sp rest =>
    have busy : s.startTransaction.spaces =
        sp.startTransaction :: rest.map (·.startTransaction) := by
      unfold startTransaction
      rw [spaces]
      rfl
    rw [addEach_awaiting busy rfl, addEach_awaiting busy rfl,
      Sketch.registerAll_perm reordered.perm]
    -- both batches wait in the first space, and its preparation sorts them to one list
    have ended := finishTransaction_awaiting reordered
      { s.startTransaction with sketch := s.startTransaction.sketch.registerAll cs' }
      sp.startTransaction (rest.map (·.startTransaction))
    simp only
    rw [ended]
    exact ⟨_, _, rfl, rfl⟩

end Solve

/-- Two horizontal constraints and a vertical one between them, on a segment and on its points. -/
def crossedBatch : List Constraint :=
  let ends : List Handle := [⟨0⟩, ⟨1⟩, ⟨2⟩, ⟨3⟩]
  [{ id := ⟨1⟩, kind := .horizontal, entities := [⟨3⟩], params := ends },
    { id := ⟨2⟩, kind := .vertical, entities := [⟨3⟩], params := ends },
    { id := ⟨3⟩, kind := .coincident, entities := [⟨1⟩, ⟨2⟩], params := ends },
    { id := ⟨4⟩, kind := .horizontal, entities := [⟨3⟩], params := ends }]

/-- The order of the ids is turned round, but for the two constraints of one kind. -/
theorem addConstraints_reordered_crossedBatch :
    let s : Session Float :=
      create (({ name := "sketch" } : Sketch Float).addSegment 0 0 3 4).2 Settings.standard
    let cs := crossedBatch
    let cs' := [2, 1, 0, 3].flatMap fun i => cs[i]?.toList
    Constraint.Reordered cs cs' ∧ cs' ≠ cs ∧
    ∃ (outcome : Except (Failure Float) Unit) (t : Session Float),
      s.addConstraints cs = (outcome.map fun _ => cs.map (·.id), t) ∧
      s.addConstraints cs' = (outcome.map fun _ => cs'.map (·.id), t) := by
  intro s cs cs'
  have reordered : Constraint.Reordered cs cs' :=
    ⟨by decide, fun kind => by cases kind <;> decide⟩
  exact ⟨reordered, by decide, addConstraints_reordered s reordered⟩

end Session

end SketchSolver
