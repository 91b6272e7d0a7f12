import SketchSolver.Proofs.Session.Records

/-!
# Records restore what they were made of

A new session that restores records in order puts each constraint at the end of its
space, and sorts what is sorted already. So it has the same records, also when it cannot
be solved in the end (`restore_reloadable`). The main statement `restore_history` is about
the records of a session after everything that a caller can do.

The session that restores starts with one empty space, and rebuilding adds those that are
missing. The batch is then added in a transaction, where every constraint waits at the end
of its space: `Space.joined` is what a space looks like with all those constraints of a
batch that are meant for it, in their order, and adding one after the other comes to
joining them all at once (`addEach_postponed`). Nothing is refused, since all spaces are
there.

At the end of the transaction every space is prepared and solved. A space whose
constraints are sorted is `Ready`: preparing it leaves its list as it is, solving does, too,
and a failure is one of solving (`Ready.finishTransaction`). Through all spaces the lists
stay what they are (`onEach_ready`), and if none has failed, the refresh that follows does
not touch them either (`untilFailure_ready`).

It remains to see that reading the lists off space by space gives the records in the order
in which they came, which is the order of spaces (`Blank.addBatch`), and that each returned
id finds the constraint that was made from its record (`constraint?_of_mem`); ids that were
given out one after the other differ.
-/

namespace SketchSolver

variable {α : Type}

namespace Space

variable {sp : Space α} {cs ds : List (Nat × Constraint)}

/-- The space with the constraints at its end that are meant for it. -/
def joined (sp : Space α) (cs : List (Nat × Constraint)) : Space α :=
  { sp with constraints := sp.constraints ++ (cs.filter fun p => p.1 = sp.index).map hostedAt }

/-- A batch with nothing in it leaves every space. -/
theorem joined_nil (sp : Space α) : sp.joined [] = sp := by
  unfold joined
  rw [List.filter_nil, List.map_nil, List.append_nil]

theorem joined_joined (sp : Space α) (cs ds : List (Nat × Constraint)) :
    (sp.joined cs).joined ds = sp.joined (cs ++ ds) := by
  unfold joined
  rw [List.filter_append, List.map_append, List.append_assoc]

theorem map_joined (spaces : List (Space α)) (cs ds : List (Nat × Constraint)) :
    (spaces.map (·.joined cs)).map (·.joined ds) = spaces.map (·.joined (cs ++ ds)) := by
  rw [List.map_map]
  exact List.map_congr_left fun sp _ => sp.joined_joined cs ds

/-- A space for which nothing is meant stays as it is. -/
theorem joined_of_absent (absent : ∀ p ∈ cs, p.1 ≠ sp.index) : sp.joined cs = sp := by
  have none : cs.filter (fun p => p.1 = sp.index) = [] :=
    List.filter_eq_nil_iff.mpr fun p mem => by simpa using absent p mem
  unfold joined
  rw [none, List.map_nil, List.append_nil]

/-- The constraints fit, take part and are sorted, so preparing leaves them as they are. -/
structure Ready (sp : Space α) : Prop extends Regular sp where
  sorted : sp.constraints.Pairwise fun c d => c.kind.code ≤ d.kind.code

theorem Ready.congr {sp' : Space α} (ready : sp.Ready)
    (constraints : sp'.constraints = sp.constraints) (conflicting : sp'.conflicting = sp.conflicting) : sp'.Ready := by
  refine ⟨⟨?_, ?_⟩, ?_⟩
  · rw [constraints]
    exact ready.fits
  · rw [conflicting]
    exact ready.unmarked
  · rw [constraints]
    exact ready.sorted

section Solve

variable [Zero α]

/-- Preparing for no entity cannot fail. -/
theorem Ready.prepare (ready : sp.Ready) (sk : Sketch α) (force : Bool) :
    ∃ sp' sk', sp.prepare sk none force = (.ok (), sp', sk') ∧
      sp'.constraints = sp.constraints ∧ sp'.conflicting = sp.conflicting := by
  have fits : ∀ c ∈ (sp.arranged none []).valid, c.Fits := fun c hc =>
    (ready.toRegular.arranged none []).fits c (valid_sub hc)
  obtain ⟨sp', sk', eq, built⟩ := build_ok sk fits
  refine ⟨sp', sk', (prepare_none sp sk force).trans eq, ?_, ?_⟩
  · exact built.constraints.trans (sortConstraints_eq_self ready.sorted)
  · rw [built.space]
    rfl

variable [One α] [Add α] [Sub α] [Mul α] [Div α] [Neg α] [LT α] [LE α] [BEq α]
variable [DecidableLT α] [DecidableLE α] [Elementary α]

/-- Ending a transaction can only fail to solve. -/
theorem Ready.finishTransaction (ready : sp.Ready) (sk : Sketch α) :
    ((sp.finishTransaction sk).2.1.constraints = sp.constraints ∧
      (sp.finishTransaction sk).2.1.conflicting = sp.conflicting) ∧
      ∀ e, (sp.finishTransaction sk).1 = .error e → ∃ cause, e = .rolledBack cause := by
  have opened : ({ sp with inTransaction := false } : Space α).Ready := ready.congr rfl rfl
  obtain ⟨sp₁, sk₁, prepared, constraints, conflicting⟩ := opened.prepare sk true
  have frame := solve_frame sp₁ sk₁ false
  unfold Space.finishTransaction
  rw [prepared]
  unfold solveNow
  simp only
  generalize sp₁.solve sk₁ false = r at frame
  obtain ⟨result, sp₂, sk₂⟩ := r
  refine ⟨⟨?_, ?_⟩, fun e failed => ?_⟩
  · rw [← constraints, frame.space]
  · rw [← conflicting, frame.space]
  · cases result with
    | error cause =>
      cases failed
      exact ⟨cause, rfl⟩
    | ok report => simp [Except.mapError] at failed

end Solve

end Space

namespace Session

open Space (hostedAt Ready)

variable {s s' : Session α} {records : List Record} {c : Constraint}
variable {cs : List (Nat × Constraint)} {index : Nat}

/-! ## Spaces that are ready -/

/-- An operation that leaves ready spaces ready does so to all of them, and each failure is an
expected one. -/
theorem onEach_ready {β : Type} {act : SpaceAction α β} {expected : Failure α → Prop}
    (acts : ∀ sp, sp.Ready → ∀ sk, ((act sp sk).2.1.constraints = sp.constraints ∧
      (act sp sk).2.1.conflicting = sp.conflicting) ∧ ∀ e, (act sp sk).1 = .error e → expected e) :
    ∀ {spaces : List (Space α)} (sk : Sketch α), (∀ sp ∈ spaces, sp.Ready) →
      (∀ sp ∈ (onEach act spaces sk).2.1, sp.Ready) ∧
      (onEach act spaces sk).2.1.map (·.constraints) = spaces.map (·.constraints) ∧
      ∀ e, (onEach act spaces sk).1 = some e → expected e
  | [], _, ready => ⟨ready, rfl, fun e failed => by simp [onEach] at failed⟩
  | sp :: rest, sk, ready => by
    obtain ⟨first, others⟩ := List.forall_mem_cons.mp ready
    obtain ⟨⟨constraints, conflicting⟩, fails⟩ := acts sp first sk
    obtain ⟨ready', same, later⟩ := onEach_ready acts (act sp sk).2.2 others
    rw [onEach_cons]
    refine ⟨List.forall_mem_cons.mpr ⟨first.congr constraints conflicting, ready'⟩,
      by rw [List.map_cons, List.map_cons, constraints, same], fun e failed => ?_⟩
    unfold onEach at failed
    simp only at failed
    split at failed
    next => exact later e failed
    next failed' =>
      cases failed
      exact fails e failed'

section Prepare

variable [Zero α]

/-- Ready spaces can be prepared, all of them, and their lists stay. -/
theorem untilFailure_ready (force : Bool) : ∀ {spaces : List (Space α)} (sk : Sketch α),
    (∀ sp ∈ spaces, sp.Ready) → ∃ spaces' sk',
      untilFailure (fun sp sk => sp.prepare sk none force) spaces sk = (.ok (), spaces', sk') ∧
        spaces'.map (·.constraints) = spaces.map (·.constraints)
  | [], sk, _ => ⟨[], sk, rfl, rfl⟩
  | sp :: rest, sk, ready => by
    obtain ⟨first, others⟩ := List.forall_mem_cons.mp ready
    obtain ⟨sp', sk₁, prepared, constraints, _⟩ := first.prepare sk force
    obtain ⟨rest', sk', later, same⟩ := untilFailure_ready force sk₁ others
    refine ⟨sp' :: rest', sk', ?_, by rw [List.map_cons, List.map_cons, constraints, same]⟩
    unfold untilFailure
    rw [prepared]
    simp only
    rw [later]

end Prepare

/-- Where ids differ, a hosted constraint is found by its id. -/
theorem constraint?_of_mem (distinct : (s.constraints.map (·.id)).Nodup) (hc : c ∈ s.constraints) :
    s.constraint? c.id = some c := by
  have eq : s.constraint? c.id = s.constraints.find? fun d => d.id = c.id := by
    unfold constraint? constraints
    rw [List.find?_flatMap]
    rfl
  rw [eq]
  cases found : s.constraints.find? fun d => d.id = c.id with
  | none =>
    have := List.find?_eq_none.mp found c hc
    simp at this
  | some d =>
    have same : d.id = c.id := by simpa using List.find?_some found
    rw [List.inj_on_of_nodup_map distinct (List.mem_of_find?_eq_some found) hc same]

namespace Blank

/-- Putting off solving leaves spaces empty. -/
theorem startTransaction (blank : s.Blank) : s.startTransaction.Blank := by
  refine ⟨?_, fun sp mem => ?_⟩
  · unfold Session.startTransaction
    rw [List.length_map, ← blank.indices, List.map_map]
    rfl
  · obtain ⟨sp, old, rfl⟩ := List.mem_map.mp mem
    exact blank.empty sp old

/-- Constraints in the order of spaces and codes make empty spaces ready, which then host them in
this order. -/
theorem joined (blank : s.Blank) (inside : ∀ p ∈ cs, p.2.Fits ∧ p.1 < s.spaces.length)
    (order : cs.Pairwise fun p q => p.1 < q.1 ∨ p.1 = q.1 ∧ p.2.kind.code ≤ q.2.kind.code) :
    (∀ sp ∈ s.spaces.map (·.joined cs), sp.Ready) ∧
      (s.spaces.map (·.joined cs)).flatMap (·.constraints) = cs.map hostedAt := by
  have own : ∀ sp ∈ s.spaces, (sp.joined cs).constraints =
      (cs.filter fun p => p.1 = sp.index).map hostedAt := by
    intro sp mem
    unfold Space.joined
    rw [(blank.empty sp mem).1, List.nil_append]
  refine ⟨fun sp mem => ?_, ?_⟩
  · obtain ⟨sp, old, rfl⟩ := List.mem_map.mp mem
    refine ⟨⟨fun c hc => ?_, (blank.empty sp old).2⟩, ?_⟩
    · rw [own sp old] at hc
      obtain ⟨p, hp, rfl⟩ := List.mem_map.mp hc
      exact (inside p (List.mem_filter.mp hp).1).1
    · rw [own sp old]
      refine List.pairwise_map.mpr ((order.sublist List.filter_sublist).imp_of_mem ?_)
      intro p q hp hq before
      have atP := of_decide_eq_true (List.mem_filter.mp hp).2
      have atQ := of_decide_eq_true (List.mem_filter.mp hq).2
      rcases before with lt | ⟨_, le⟩
      · omega
      · exact le
  -- the spaces are in the order of their indices, and so are the constraints
  · have sorted : cs.Pairwise fun p q => p.1 ≤ q.1 := order.imp fun before =>
      before.elim Nat.le_of_lt fun both => Nat.le_of_eq both.1
    have all : (cs.filter fun p => p.1 < s.spaces.length) = cs :=
      List.filter_eq_self.mpr fun p mem => decide_eq_true (inside p mem).2
    calc (s.spaces.map (·.joined cs)).flatMap (·.constraints)
        = s.spaces.flatMap fun sp => (cs.filter fun p => p.1 = sp.index).map hostedAt := by
          rw [List.flatMap_map]
          exact List.flatMap_congr own
      _ = (s.spaces.map (·.index)).flatMap fun i => (cs.filter fun p => p.1 = i).map hostedAt := by
          rw [List.flatMap_map]
      _ = ((List.range s.spaces.length).flatMap fun i =>
            cs.filter fun p => p.1 = i).map hostedAt := by
          rw [blank.indices, List.map_flatMap]
      _ = cs.map hostedAt := by rw [flatMap_classes sorted, all]

end Blank

/-! ## Adding them in a transaction -/

section Restore

variable [Zero α] [One α] [Add α] [Sub α] [Mul α] [Div α] [Neg α] [LT α] [LE α] [BEq α]
variable [DecidableLT α] [DecidableLE α] [Elementary α]

/-- In a transaction a constraint goes to the end of its space. -/
theorem addToSpace_postponed (busy : ∀ sp ∈ s.spaces, sp.inTransaction = true)
    (indices : s.spaces.map (·.index) = List.range s.spaces.length)
    (inside : index < s.spaces.length) : ∃ sketch, s.addToSpace index c =
      (.ok c.id, { s with spaces := s.spaces.map (·.joined [(index, c)]), sketch }) := by
  -- a space is found at the position that is its index, and no other space changes
  have at' : s.spaces[index]? = some s.spaces[index] := List.getElem?_eq_getElem inside
  have place : ∀ i (bound : i < s.spaces.length), s.spaces[i].index = i := by
    intro i bound
    have both := congrArg (·[i]?) indices
    simpa [bound] using both
  have added : s.spaces[index].addConstraint s.sketch c =
      (.ok (), s.spaces[index].joined [(index, c)], s.sketch.register c.id c.entities) := by
    unfold Space.addConstraint Space.joined hostedAt
    rw [if_pos (busy _ (List.getElem_mem inside)), place index inside]
    simp
  have set : s.spaces.set index (s.spaces[index].joined [(index, c)]) =
      s.spaces.map (·.joined [(index, c)]) := by
    refine List.ext_getElem (by simp) fun i _ bound => ?_
    rw [List.length_map] at bound
    rw [List.getElem_map, List.getElem_set]
    split
    next same => subst same; rfl
    next ne =>
      refine (Space.joined_of_absent fun p mem => ?_).symm
      rw [List.mem_singleton.mp mem, place i bound]
      exact ne
  refine ⟨s.sketch.register c.id c.entities, ?_⟩
  unfold addToSpace space
  rw [at']
  simp only
  rw [added, ← set]
  rfl

/-- While solving is put off, a batch is joined to the spaces that it is meant for, and all its ids
are returned. -/
theorem addEach_postponed : ∀ {cs : List (Nat × Constraint)} {s : Session α},
    (∀ sp ∈ s.spaces, sp.inTransaction = true) →
    s.spaces.map (·.index) = List.range s.spaces.length →
    (∀ p ∈ cs, p.1 < s.spaces.length) → ∃ sketch, addEach cs s =
      (.ok (cs.map (·.2.id)), { s with spaces := s.spaces.map (·.joined cs), sketch })
  | [], s, _, _, _ => by
    refine ⟨s.sketch, ?_⟩
    have same : s.spaces.map (·.joined []) = s.spaces := by
      simp only [Space.joined_nil, List.map_id']
    rw [same]
    rfl
  | (index, c) :: rest, s, busy, indices, inside => by
    obtain ⟨first, later⟩ := List.forall_mem_cons.mp inside
    obtain ⟨sketch, added⟩ := addToSpace_postponed (c := c) busy indices first
    -- the session after the first one, which still puts off solving
    let s₁ : Session α := { s with spaces := s.spaces.map (·.joined [(index, c)]), sketch }
    have length : s₁.spaces.length = s.spaces.length := List.length_map _
    have busy₁ : ∀ sp ∈ s₁.spaces, sp.inTransaction = true := by
      intro sp mem
      obtain ⟨sp, old, rfl⟩ := List.mem_map.mp mem
      exact busy sp old
    have indices₁ : s₁.spaces.map (·.index) = List.range s₁.spaces.length := by
      rw [length, ← indices]
      exact List.map_map
    obtain ⟨sketch', each⟩ := addEach_postponed busy₁ indices₁ fun p mem => length ▸ later p mem
    refine ⟨sketch', ?_⟩
    unfold addEach
    rw [added]
    simp only
    rw [each]
    have all : s₁.spaces.map (·.joined rest) = s.spaces.map (·.joined ((index, c) :: rest)) :=
      Space.map_joined s.spaces [(index, c)] rest
    rw [all]
    rfl

/-! ## Ending the transaction -/

/-- Ending a transaction keeps the constraints of all spaces as they are listed, and can only fail
to solve. -/
theorem finishTransaction_ready (ready : ∀ sp ∈ s.spaces, sp.Ready) :
    s.finishTransaction.2.constraints = s.constraints ∧
      ∀ e, s.finishTransaction.1 = .error e → ∃ cause, e = .rolledBack cause := by
  have listed : ∀ {spaces : List (Space α)},
      spaces.map (·.constraints) = s.spaces.map (·.constraints) →
      spaces.flatMap (·.constraints) = s.constraints := by
    intro spaces same
    unfold constraints
    rw [List.flatMap_def, List.flatMap_def, same]
  obtain ⟨ready', same, fails⟩ := onEach_ready (fun sp ready sk => ready.finishTransaction sk)
    s.sketch ready
  unfold finishTransaction
  simp only
  generalize onEach (fun (sp : Space α) sk => sp.finishTransaction sk) s.spaces s.sketch = r
    at ready' same fails
  obtain ⟨_ | e, spaces, sketch⟩ := r
  -- when all spaces were solved they are prepared once more, which does not fail either
  · obtain ⟨spaces', sketch', prepared, same'⟩ := untilFailure_ready false sketch ready'
    have refreshed : ({ s with inTransaction := false, spaces, sketch } : Session α).refresh =
        (.ok (), { s with inTransaction := false, spaces := spaces', sketch := sketch' }) := by
      unfold refresh Session.prepare
      simp only
      rw [if_neg Bool.false_ne_true, prepared]
    unfold lockOn
    simp only
    rw [refreshed]
    exact ⟨listed (same'.trans same), fun e failed => by simp at failed⟩
  · refine ⟨listed same, fun e' failed => ?_⟩
    cases failed
    exact fails e rfl

/-- What ending a transaction leaves: the constraints in some order, and the entities. -/
theorem finishTransaction_frame (regular : ∀ sp ∈ s.spaces, sp.Regular) :
    s.finishTransaction.2.inTransaction = false ∧
      s.finishTransaction.2.constraints.Perm s.constraints ∧
      s.finishTransaction.2.sketch.entities = s.sketch.entities := by
  have swept : Swept s.spaces s.sketch _ _ := swept_onEach s.sketch fun sp mem sk =>
    (Space.finishTransaction_outcome (regular sp mem) sk).1
  have regular' : ∀ sp ∈ (onEach (fun (sp : Space α) sk => sp.finishTransaction sk)
      s.spaces s.sketch).2.1, sp.Regular := by
    intro sp' mem
    obtain ⟨sp, old, few⟩ := exists_of_forall₂ swept.fewer mem
    exact ⟨fun c hc => (regular sp old).fits c (few.constraints c hc),
      few.conflicting (regular sp old).unmarked⟩
  have entities := congrArg Sketch.entities swept.sketch
  unfold finishTransaction
  simp only
  generalize onEach (fun (sp : Space α) sk => sp.finishTransaction sk) s.spaces s.sketch = r
    at swept regular' entities
  obtain ⟨_ | e, spaces, sketch⟩ := r
  · have prepared : Swept spaces sketch _ _ := swept_untilFailure sketch fun sp mem sk =>
      (Space.prepare_outcome (regular' sp mem) sk none false).worked
    exact ⟨rfl, prepared.constraints.trans swept.constraints,
      (congrArg Sketch.entities prepared.sketch).trans entities⟩
  · exact ⟨rfl, swept.constraints, entities⟩

/-! ## Restoring -/

/-- **A batch in the order of spaces and codes is hosted in this order**, and can only fail to
solve. -/
theorem Blank.addBatch (blank : s.Blank) (inside : ∀ p ∈ cs, p.2.Fits ∧ p.1 < s.spaces.length)
    (order : cs.Pairwise fun p q => p.1 < q.1 ∨ p.1 = q.1 ∧ p.2.kind.code ≤ q.2.kind.code) :
    (s.addBatch cs).2.constraints = cs.map hostedAt ∧
      match (s.addBatch cs).1 with
      | .ok ids => ids = cs.map (·.2.id)
      | .error e => ∃ cause, e = .rolledBack cause := by
  have started := blank.startTransaction
  have length : s.startTransaction.spaces.length = s.spaces.length := List.length_map _
  rw [← length] at inside
  have busy : ∀ sp ∈ s.startTransaction.spaces, sp.inTransaction = true := by
    intro sp mem
    obtain ⟨sp, _, rfl⟩ := List.mem_map.mp mem
    rfl
  obtain ⟨ready, hosted⟩ := started.joined inside order
  obtain ⟨sketch, added⟩ := addEach_postponed busy started.indices fun p mem => (inside p mem).2
  unfold Session.addBatch
  rw [added]
  simp only
  generalize hs : ({ s.startTransaction with
    spaces := s.startTransaction.spaces.map (·.joined cs), sketch } : Session α) = s'
  have spaces : s'.spaces = s.startTransaction.spaces.map (·.joined cs) := by rw [← hs]
  rw [← spaces] at ready hosted
  obtain ⟨kept, fails⟩ := finishTransaction_ready ready
  refine ⟨kept.trans hosted, ?_⟩
  cases ended : s'.finishTransaction.1 with
  | error e => exact fails e ended
  | ok _ => rfl

/-- The session has the records, and the ids are those of the constraints with the records, one
after the other; or else it has the records and could not be solved. -/
def Restored (records : List Record) : Except (Failure α) (List ConstraintId) × Session α → Prop
  | (.ok ids, s) => s.records = records ∧
    ids.map (fun id => (s.constraint? id).map (·.record)) = records.map some
  | (.error e, s) => s.records = records ∧ ∃ cause, e = .rolledBack cause

/-- **A new session restores records that are in order**, or it fails to solve them. -/
theorem restore_reloadable {sketch : Sketch α} (reloadable : Reloadable sketch records)
    (settings : Settings α) : Restored records ((create sketch settings).restore records) := by
  obtain ⟨cs, s, rebuilt, blank, made, inside, _⟩ :=
    (Blank.create sketch settings).rebuild reloadable.placed reloadable.affords
  obtain ⟨_, distinct⟩ := rebuild_ok rebuilt
  have order : cs.Pairwise fun p q => p.1 < q.1 ∨ p.1 = q.1 ∧ p.2.kind.code ≤ q.2.kind.code := by
    have order := reloadable.order
    rw [← made, List.pairwise_map] at order
    exact order.imp fun before => before.imp_right fun both => both.imp_left Option.some.inj
  obtain ⟨hosted, outcome⟩ := blank.addBatch inside order
  have eq : (create sketch settings).restore records = s.addBatch cs := by
    unfold restore
    rw [rebuilt]
  rw [eq]
  generalize s.addBatch cs = r at hosted outcome
  obtain ⟨result, s'⟩ := r
  have listed : s'.records = records := by
    unfold Session.records
    rw [hosted, List.map_map]
    exact made
  cases result with
  | error e => exact ⟨listed, outcome⟩
  | ok ids =>
    have same : ids = cs.map (·.2.id) := outcome
    have distinct' : (s'.constraints.map (·.id)).Nodup := by
      rw [hosted, List.map_map]
      exact List.pairwise_map.mpr distinct
    refine ⟨listed, ?_⟩
    rw [same, ← made, List.map_map, List.map_map]
    refine List.map_congr_left fun p mem => ?_
    -- the ids that are given back are looked up, so it matters that no two are equal
    have there : hostedAt p ∈ s'.constraints := hosted ▸ List.mem_map_of_mem mem
    show (s'.constraint? (hostedAt p).id).map _ = _
    rw [constraint?_of_mem distinct' there]
    rfl

end Restore

end Session

namespace Bench

variable [Zero α] [One α] [Add α] [Sub α] [Mul α] [Div α] [Neg α] [LT α] [LE α] [BEq α]
variable [DecidableLT α] [DecidableLE α] [Elementary α]

/-- **Whatever a caller has done, the records of its session restore the same constraints**, outside
a transaction and as long as their entities are there, in a new session over a sketch that has the
same entities. It can only fail to solve.

Every constraint that the caller has added was created on the session's own sketch. The ids in the
record of one that was created on another sketch name entities of that sketch. -/
theorem restore_history (name : String) (settings settings' : Settings α) (deeds : List (Deed α))
    (sketch : Sketch α)
    (idle : (history deeds (create name settings)).session.inTransaction = false)
    (there : ∀ c ∈ (history deeds (create name settings)).session.constraints,
      ∀ id ∈ c.entities, (history deeds (create name settings)).session.sketch.contains id)
    (redrawn : (history deeds (create name settings)).session.sketch.Redrawn sketch) :
    Session.Restored (history deeds (create name settings)).session.records
      ((Session.create sketch settings').restore
        (history deeds (create name settings)).session.records) := by
  have filed := filed_history deeds (filed_create name settings)
  exact Session.restore_reloadable (filed.session.reloadable idle there redrawn) settings'

/-- A segment is to be vertical, and horizontal as well, and solving is put off. -/
def uprightAndLevel : List (Deed Float) := [
  .move (.draw (.segment 0 0 4 3)), .move (.operate .startTransaction trivial),
  .move (.operate (.constrain .vertical [⟨3⟩]) trivial),
  .move (.operate (.constrain .horizontal [⟨3⟩]) trivial)]

/-- Another segment under the same ids. -/
def otherSegment : Sketch Float := (({ name := "other" } : Sketch Float).addSegment 5 5 9 9).2

/-- When the transaction has ended there are two records, and they are restored over the other
segment. -/
theorem restore_uprightAndLevel : ∃ records : List Record,
    (history (uprightAndLevel ++ [.move (.operate .finishTransaction trivial)])
      (create "sketch" Settings.standard)).session.records = records ∧ records.length = 2 ∧
    Session.Restored records
      ((Session.create otherSegment Settings.standard).restore records) := by
  have before : ∃ s : Session Float,
      (history uprightAndLevel (create "sketch" Settings.standard)).session = s ∧
      (∀ sp ∈ s.spaces, (∀ c ∈ sp.constraints, c.params.length = c.kind.paramCount) ∧
        sp.conflicting = []) ∧
      s.constraints.map (·.entities) = [[⟨3⟩], [⟨3⟩]] ∧
      s.sketch.entities.map (fun e => (e.id, e.shape.name)) =
        [(⟨1⟩, "point"), (⟨2⟩, "point"), (⟨3⟩, "segment")] := by
    refine ⟨_, rfl, ?_⟩
    decide +kernel
  obtain ⟨s, before, regular, hosted, drawn⟩ := before
  -- the end of the transaction solves, and no evaluation is made of that: it keeps what is needed
  obtain ⟨idle, same, entities⟩ := Session.finishTransaction_frame (s := s) fun sp mem =>
    ⟨(regular sp mem).1, (regular sp mem).2⟩
  have after : (history (uprightAndLevel ++ [.move (.operate .finishTransaction trivial)])
      (create "sketch" Settings.standard)).session = s.finishTransaction.2 := by
    unfold history at before ⊢
    rw [List.foldl_append, ← before]
    rfl
  have restored := restore_history "sketch" Settings.standard Settings.standard
    (uprightAndLevel ++ [.move (.operate .finishTransaction trivial)]) otherSegment
  rw [after] at restored ⊢
  rw [← entities] at drawn
  generalize s.finishTransaction.2 = s' at idle same entities drawn restored
  have third : ∀ c ∈ s'.constraints, c.entities = [⟨3⟩] := by
    intro c hc
    have listed : c.entities ∈ [[⟨3⟩], [⟨3⟩]] := hosted ▸ List.mem_map_of_mem (same.mem_iff.mp hc)
    simpa using listed
  refine ⟨s'.records, rfl, ?_, restored idle (fun c hc id mem => ?_) fun id e found => ?_⟩
  · have count := congrArg List.length hosted
    rw [List.length_map, ← same.length_eq] at count
    unfold Session.records
    rw [List.length_map]
    exact count
  · rw [third c hc] at mem
    obtain rfl := List.mem_singleton.mp mem
    obtain ⟨e, he, eq⟩ := List.mem_map.mp (show ((⟨3⟩ : EntityId), "segment") ∈
      s'.sketch.entities.map fun e => (e.id, e.shape.name) by rw [drawn]; decide)
    exact (Prod.mk.inj eq).1 ▸ Sketch.entity?_isSome he
  · have name : (id, e.shape.name) ∈ [(⟨1⟩, "point"), (⟨2⟩, "point"), (⟨3⟩, "segment")] := by
      unfold Sketch.entity? at found
      have same : e.id = id := by simpa using List.find?_some found
      rw [← drawn, ← same]
      exact List.mem_map_of_mem (List.mem_of_find?_eq_some found)
    simp only [List.mem_cons, Prod.mk.injEq, List.not_mem_nil, or_false] at name
    rcases name with ⟨rfl, eq⟩ | ⟨rfl, eq⟩ | ⟨rfl, eq⟩
    · exact ⟨_, rfl, eq.symm⟩
    · exact ⟨_, rfl, eq.symm⟩
    · exact ⟨_, rfl, eq.symm⟩

end Bench

end SketchSolver
