import SketchSolver.Proofs.Session.Adding

/-!
# Batches and records

A batch is a transaction, so it leaves a sound session whatever becomes of its
constraints, and whatever the session was before (`addBatch_sound`). Constraints
that are restored from records are such a batch: they were created on the sketch
just before, for spaces that may be new.

Constraints of a batch must be newcomers one by one, and they must not be in each
other's way: their ids differ, and a parameter that two of them read in different
spaces belongs to an entity of the later one (`Newcomers`). When the first one is
added, the rest are still newcomers, and this is the induction step
(`Newcomers.tail`).

In a batch nothing is solved before the end, so a constraint can be rejected only
because its space is not there. The transaction is ended all the same, and it is its
end that makes the session sound.

Rebuilding records adds spaces as they are needed, and creates one constraint after the
other. Neither disturbs what is there (`Grown`). What is rebuilt is `Recent`: created
after a certain number of ids had been given out, on entities that are there. Constraints
that were created one after the other have different ids, and all their parameters belong
to their entities, so a list of recent constraints is a batch (`rebuild_ok`).
-/

namespace SketchSolver.Session

open Space (Settled)

variable {α : Type} {s s' s'' : Session α} {spaces : List (Space α)} {sk : Sketch α}
variable {cs : List (Nat × Constraint)}

/-- Constraints that can be added together, each to the space at its index. -/
structure Newcomers (spaces : List (Space α)) (sk : Sketch α) (cs : List (Nat × Constraint)) :
    Prop where
  each : ∀ p ∈ cs, Newcomer spaces sk p.1 p.2
  apart : cs.Pairwise fun p q => p.2.id ≠ q.2.id ∧
    (p.1 ≠ q.1 → ∀ h ∈ q.2.params, h ∈ p.2.params → sk.Owned q.2 h)

section Batch

variable [Zero α]

/-- Once one has been added, the others still can be. -/
theorem Newcomers.tail {index : Nat} {c : Constraint}
    (new : Newcomers s.spaces s.sketch ((index, c) :: cs)) (added : AddedTo s index c s') :
    Newcomers s'.spaces s'.sketch cs := by
  obtain ⟨first, later⟩ := List.pairwise_cons.mp new.apart
  refine ⟨fun p mem => ?_, later.imp fun both => ⟨both.1, fun ne h mem mem' =>
    added.owned _ h (both.2 ne h mem mem')⟩⟩
  have before := new.each p (List.mem_cons_of_mem _ mem)
  obtain ⟨ne, owned⟩ := first p mem
  refine ⟨before.fits, by rw [added.count]; exact before.issued, fun i d hd => ?_,
    fun i d hd away h hp hh => ?_⟩
  · rcases added.hosts i d hd with old | ⟨_, same, _⟩
    · exact before.unhosted i d old
    · rw [same]
      exact ne
  · rcases added.hosts i d hd with old | ⟨at', _, same⟩
    · exact added.owned _ h (before.owned i d old away h hp hh)
    · -- what the one before it reads it shares with another space now
      rw [same] at hh
      exact added.owned _ h (owned (by rw [← at']; exact away) h hp hh)

omit [Zero α] in
/-- When solving is put off, nothing has to be settled. -/
theorem startTransaction_inOrder (inOrder : s.InOrder) : s.startTransaction.InOrder := by
  refine ⟨?_, fun idle => ?_⟩
  · exact inOrder.orderly.of_spaces (forall₂_map fun sp => ⟨rfl, fun _ hc => hc, id, id⟩)
  · unfold startTransaction at idle
    simp at idle

omit [Zero α] in
/-- Opening a transaction hosts nothing. -/
theorem hosts_startTransaction {i : Nat} {d : Constraint}
    (hosts : Hosts s.startTransaction.spaces i d) : Hosts s.spaces i d := by
  obtain ⟨sp, at', hd⟩ := hosts
  unfold startTransaction at at'
  rw [List.getElem?_map, Option.map_eq_some_iff] at at'
  obtain ⟨sp₀, at₀, rfl⟩ := at'
  exact ⟨sp₀, at₀, hd⟩

variable [One α] [Add α] [Sub α] [Mul α] [Div α] [Neg α] [LT α] [LE α] [BEq α]
variable [DecidableLT α] [DecidableLE α] [Elementary α]

/-- A batch is added one by one, and what is left of it stays a batch. -/
theorem addEach_inOrder : ∀ {cs : List (Nat × Constraint)} {s : Session α}, s.InOrder →
    Newcomers s.spaces s.sketch cs → (addEach cs s).2.InOrder
  | [], s, inOrder, _ => inOrder
  | (index, c) :: rest, s, inOrder, new => by
    have added := addToSpace_spec inOrder (new.each _ List.mem_cons_self)
    have later := addEach_inOrder added.inOrder (new.tail added)
    unfold addEach
    split
    next eq =>
      rw [eq] at added
      exact added.inOrder
    next eq =>
      rw [eq] at later
      simp only at later
      split
      next eq' =>
        rw [eq'] at later
        exact later
      next eq' =>
        rw [eq'] at later
        exact later

/-- **A batch leaves a sound session.** -/
theorem addBatch_sound (inOrder : s.InOrder) (new : Newcomers s.spaces s.sketch cs) :
    (s.addBatch cs).2.Sound := by
  have new' : Newcomers s.startTransaction.spaces s.startTransaction.sketch cs :=
    ⟨fun p mem => (new.each p mem).of_hosts (fun _ _ => hosts_startTransaction) (Nat.le_refl _)
      fun _ => id, new.apart⟩
  have added := addEach_inOrder (startTransaction_inOrder inOrder) new'
  unfold addBatch
  split
  next eq =>
    rw [eq] at added
    exact finishTransaction_sound added.orderly
  next eq =>
    rw [eq] at added
    exact finishTransaction_sound added.orderly

end Batch

/-! ## Restoring -/

section Restore

variable [Zero α]

/-- The session with more spaces, all of them empty, and with more ids given out. -/
structure Grown (s s' : Session α) : Prop where
  inOrder : s.InOrder → s'.InOrder
  sound : s.Sound → s'.Sound
  hosts : ∀ i d, Hosts s'.spaces i d → Hosts s.spaces i d
  entities : s'.sketch.entities = s.sketch.entities
  count : s.sketch.constraintCount ≤ s'.sketch.constraintCount

namespace Grown

theorem refl (s : Session α) : Grown s s := ⟨id, id, fun _ _ => id, rfl, Nat.le_refl _⟩

theorem trans (h₁ : Grown s s') (h₂ : Grown s' s'') : Grown s s'' :=
  ⟨h₂.inOrder ∘ h₁.inOrder, h₂.sound ∘ h₁.sound, fun i d hd => h₁.hosts i d (h₂.hosts i d hd),
    h₂.entities.trans h₁.entities, Nat.le_trans h₁.count h₂.count⟩

theorem of_undrawn {sketch : Sketch α} (undrawn : s.sketch.Undrawn sketch) :
    Grown s { s with sketch } :=
  ⟨fun inOrder => inOrder.of_undrawn undrawn, fun sound => sound.of_undrawn undrawn,
    fun _ _ => id, undrawn.entities, undrawn.constraintCount⟩

theorem addSpace (s : Session α) : Grown s s.addSpace.2 := by
  have inOrder : s.InOrder → s.addSpace.2.InOrder := by
    intro inOrder
    refine ⟨inOrder.orderly.append_empty rfl rfl, fun idle sp mem => ?_⟩
    rcases List.mem_append.mp mem with old | new
    · exact inOrder.idle idle sp old
    · rw [List.mem_singleton.mp new]
      rfl
  refine ⟨inOrder, fun sound => ⟨inOrder sound.toInOrder, fun idle sp mem => ?_⟩, ?_, rfl,
    Nat.le_refl _⟩
  · rcases List.mem_append.mp mem with old | new
    · exact sound.settled idle sp old
    · rw [List.mem_singleton.mp new]
      exact .of_empty rfl rfl rfl fun h mem => absurd mem List.not_mem_nil
  · rintro i d ⟨sp, at', hd⟩
    have split : (s.spaces ++ [Space.create s.spaces.length s.settings])[i]? = some sp := at'
    rw [List.getElem?_append] at split
    by_cases old : i < s.spaces.length
    · rw [if_pos old] at split
      exact ⟨sp, split, hd⟩
    · rw [if_neg old] at split
      rw [List.mem_singleton.mp (List.mem_of_getElem? split)] at hd
      exact absurd hd List.not_mem_nil

/-- Several empty spaces are added one after the other. -/
theorem addSpacesUpTo (s : Session α) (index : Nat) : Grown s (s.addSpacesUpTo index) := by
  unfold Session.addSpacesUpTo
  generalize List.range (index + 1 - s.spaces.length) = missing
  induction missing generalizing s with
  | nil => exact .refl s
  | cons _ missing ih => exact (addSpace s).trans (ih s.addSpace.2)

end Grown

/-- The constraint was created after `count` ids were given out, on entities that are still there. -/
structure Recent (count : Nat) (sk : Sketch α) (c : Constraint) : Prop where
  fits : c.Fits
  new : count < c.id.number
  issued : c.id.number ≤ sk.constraintCount
  owned : ∀ h ∈ c.params, sk.Owned c h

omit [Zero α] in
/-- What is made of a record was created for its entities. -/
theorem exists_create {sk' : Sketch α} {r : Record} {c : Constraint}
    (created : Constraint.ofRecord sk r = .ok (c, sk')) :
    ∃ kind, Constraint.create sk kind r.entities = .ok (c, sk') := by
  unfold Constraint.ofRecord at created
  cases known : Kind.ofCode? r.kind with
  | none =>
    rw [known] at created
    simp at created
  | some kind =>
    rw [known] at created
    exact ⟨kind, created⟩

/-- Rebuilding lets a session grow, also when a record is refused. -/
theorem rebuild_grown : ∀ (records : List Record) (s : Session α), Grown s (rebuild records s).2
  | [], s => .refl s
  | r :: rest, s => by
    have spaces := Grown.addSpacesUpTo s (r.space.getD 0)
    unfold rebuild
    simp only
    split
    next => exact spaces
    next c sketch created =>
      obtain ⟨kind, created⟩ := exists_create created
      have first := spaces.trans (.of_undrawn (undrawn_of_create created))
      have later := rebuild_grown rest { s.addSpacesUpTo (r.space.getD 0) with sketch }
      split
      next eq =>
        rw [eq] at later
        exact first.trans later
      next eq =>
        rw [eq] at later
        exact first.trans later

/-- What is rebuilt was created one after the other. -/
theorem rebuild_ok : ∀ {records : List Record} {s s' : Session α} {cs : List (Nat × Constraint)},
    rebuild records s = (.ok cs, s') →
    (∀ p ∈ cs, Recent s.sketch.constraintCount s'.sketch p.2) ∧
      cs.Pairwise fun p q => p.2.id ≠ q.2.id
  | [], s, s', cs, rebuilt => by
    cases rebuilt
    exact ⟨fun p mem => absurd mem List.not_mem_nil, .nil⟩
  | r :: rest, s, s', cs, rebuilt => by
    have spaces := Grown.addSpacesUpTo s (r.space.getD 0)
    unfold rebuild at rebuilt
    simp only at rebuilt
    cases made : Constraint.ofRecord (s.addSpacesUpTo (r.space.getD 0)).sketch r with
    | error e =>
      rw [made] at rebuilt
      simp at rebuilt
    | ok result =>
      obtain ⟨c, sketch⟩ := result
      rw [made] at rebuilt
      simp only at rebuilt
      have grown := rebuild_grown rest { s.addSpacesUpTo (r.space.getD 0) with sketch }
      cases later : rebuild rest { s.addSpacesUpTo (r.space.getD 0) with sketch } with
      | mk result s₂ =>
        rw [later] at rebuilt grown
        cases result with
        | error e => simp at rebuilt
        | ok cs' =>
          simp only [Prod.mk.injEq, Except.ok.injEq] at rebuilt
          obtain ⟨rfl, rfl⟩ := rebuilt
          obtain ⟨kind, created⟩ := exists_create made
          obtain ⟨recent, distinct⟩ := rebuild_ok later
          obtain ⟨es, _, fits, eq, same⟩ := Constraint.create_ok created
          -- the first constraint has the number that was next, and those after it have larger ones
          have number : c.id.number = sketch.constraintCount := by rw [eq, same]
          have given : sketch.constraintCount =
              (s.addSpacesUpTo (r.space.getD 0)).sketch.constraintCount + 1 := by rw [same]
          have before := spaces.count
          have after : sketch.constraintCount ≤ s₂.sketch.constraintCount := grown.count
          refine ⟨fun p mem => ?_, List.pairwise_cons.mpr ⟨fun p mem same => ?_, distinct⟩⟩
          · rcases List.mem_cons.mp mem with rfl | mem
            · refine ⟨fits, by simp only; omega, by simp only; omega, fun h hh => ?_⟩
              obtain ⟨e, he, owned⟩ := Sketch.owned_of_create created hh
              refine ⟨e, ?_, owned⟩
              rw [grown.entities]
              rw [same]
              exact he
            · have old := recent p mem
              have new : sketch.constraintCount < p.2.id.number := old.new
              exact ⟨old.fits, by omega, old.issued, old.owned⟩
          · have new : sketch.constraintCount < p.2.id.number := (recent p mem).new
            rw [← same] at new
            simp only at new
            omega

variable [One α] [Add α] [Sub α] [Mul α] [Div α] [Neg α] [LT α] [LE α] [BEq α]
variable [DecidableLT α] [DecidableLE α] [Elementary α]

/-- **Restoring keeps a session in order**, and a sound one sound, also when a record is wrong. -/
theorem restore_spec (inOrder : s.InOrder) (records : List Record) :
    (s.restore records).2.InOrder ∧ (s.Sound → (s.restore records).2.Sound) := by
  have grown := rebuild_grown records s
  unfold restore
  cases rebuilt : rebuild records s with
  | mk result s' =>
    rw [rebuilt] at grown
    cases result with
    | error e => exact ⟨grown.inOrder inOrder, grown.sound⟩
    | ok cs =>
      obtain ⟨recent, distinct⟩ := rebuild_ok rebuilt
      have new : Newcomers s'.spaces s'.sketch cs := by
        refine ⟨fun p mem => ?_, distinct.imp_of_mem fun _ mem ne => ⟨ne, fun _ h hh _ =>
          (recent _ mem).owned h hh⟩⟩
        have late := recent p mem
        refine ⟨late.fits, late.issued, ?_, fun i d _ _ h hh _ => late.owned h hh⟩
        intro i d hd same
        -- what is hosted was there before, so its id was given out before all new ones
        obtain ⟨sp, at', hd⟩ := grown.hosts i d hd
        have old := inOrder.orderly.issued sp (List.mem_of_getElem? at') d hd
        have new := late.new
        rw [same] at old
        omega
      have sound := addBatch_sound (grown.inOrder inOrder) new
      exact ⟨sound.toInOrder, fun _ => sound⟩

end Restore

end SketchSolver.Session
