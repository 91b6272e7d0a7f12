import SketchSolver.Proofs.Session.Hosting

/-!
# Constraints that a sketch knows

Constraints come from a sketch: it gives them ids of their own, and decorations. Where a
constraint is hosted is no concern of the sketch, but it keeps in use the decorations that
constraints carry. `Accounts` says that it does so for a list of constraints, in any order;
constraints are created, get and lose decorations, and are forgotten.

The list stands for all constraints that there are, wherever they are held. A sketch has no
such list. It has the two counters that ids are taken from, and the decorations in use, so
what `Accounts` relates is that state and the constraints of somebody else:

- every one of them was created on the sketch (`Knows`), with the number of parameters that
  its kind reads and an id below the counter, so that no constraint to come gets its id;
- no two of them have one id, and no two carry one decoration;
- the decorations in use are those that they carry, none more and none less, and all of
  them are below the counter that the next one is taken from.

The last point is the one that breaks easily: a constraint that is dropped while it carries a
decoration leaves it in use for good. `Accounts.undecorate` and `Accounts.drop` therefore are
two lemmas, and `drop` asks for a constraint without decoration.

Entities that a constraint names need not be there any more. Only their numbers matter, and
they are below a counter too.
-/

namespace SketchSolver

variable {α : Type}

instance : Std.Trichotomous (α := DecorationId) (· < ·) where
  trichotomous d e notBelow notAbove := by
    have below : ¬ d.number < e.number := notBelow
    have above : ¬ e.number < d.number := notAbove
    obtain ⟨d⟩ := d
    obtain ⟨e⟩ := e
    simp only at below above
    rw [show d = e by omega]

/-- The decorations that constraints carry. -/
def Constraint.marks (cs : List Constraint) : List DecorationId := cs.filterMap (·.decoration)

namespace Sketch

variable {sk sk' : Sketch α} {c : Constraint} {cs ds : List Constraint} {id root : EntityId}
variable {hosted held : List Constraint}

/-! ## Constraints that the sketch knows -/

/-- The constraint was created on the sketch, on entities that may be gone by now. -/
structure Knows (sk : Sketch α) (c : Constraint) : Prop where
  fits : c.Fits
  entities : ∀ id ∈ c.entities, id.number ≤ sk.entityCount
  issued : c.id.number ≤ sk.constraintCount

/-- The sketch knows the constraints, each by an id of its own, and has in use the decorations that they
carry, each by one of them. -/
structure Accounts (sk : Sketch α) (cs : List Constraint) : Prop where
  known : ∀ c ∈ cs, sk.Knows c
  ids : (cs.map (·.id)).Nodup
  marks : (Constraint.marks cs).Nodup
  decorations : ∀ d, d ∈ sk.decorations ↔ d ∈ Constraint.marks cs
  issued : ∀ d ∈ sk.decorations, d.number ≤ sk.decorationCount

/-- What a sketch knows it goes on knowing while its counters do not fall. -/
theorem Knows.of_counts (knows : sk.Knows c) (entityCount : sk.entityCount ≤ sk'.entityCount)
    (constraintCount : sk.constraintCount ≤ sk'.constraintCount) : sk'.Knows c :=
  ⟨knows.fits, fun id mem => Nat.le_trans (knows.entities id mem) entityCount,
    Nat.le_trans knows.issued constraintCount⟩

/-- Neither the space that hosts a constraint nor its decoration matters. -/
theorem Knows.redress (knows : sk.Knows c) (decoration : Option DecorationId) (space : Option Nat) :
    sk.Knows { c with decoration, space } :=
  ⟨knows.fits, knows.entities, knows.issued⟩

namespace Accounts

theorem perm (accounts : sk.Accounts cs) (same : ds.Perm cs) : sk.Accounts ds :=
  ⟨fun c hc => accounts.known c (same.mem_iff.mp hc), (same.map _).nodup_iff.mpr accounts.ids,
    (same.filterMap _).nodup_iff.mpr accounts.marks,
    fun d => (accounts.decorations d).trans (same.filterMap _).mem_iff.symm, accounts.issued⟩

/-- Entities that are drawn do not matter, nor do ids that are given out. -/
theorem of_counts (accounts : sk.Accounts cs) (entityCount : sk.entityCount ≤ sk'.entityCount)
    (constraintCount : sk.constraintCount ≤ sk'.constraintCount)
    (decorations : sk'.decorations = sk.decorations)
    (decorationCount : sk'.decorationCount = sk.decorationCount) : sk'.Accounts cs := by
  refine ⟨fun c hc => (accounts.known c hc).of_counts entityCount constraintCount, accounts.ids,
    accounts.marks, ?_, ?_⟩
  · rw [decorations]
    exact accounts.decorations
  · rw [decorations, decorationCount]
    exact accounts.issued

/-- Which space hosts a constraint is no concern of the sketch. -/
theorem place (accounts : sk.Accounts (c :: cs)) (space : Option Nat) :
    sk.Accounts ({ c with space } :: cs) := by
  obtain ⟨first, others⟩ := List.forall_mem_cons.mp accounts.known
  exact ⟨List.forall_mem_cons.mpr ⟨first.redress _ _, others⟩, accounts.ids, accounts.marks,
    accounts.decorations, accounts.issued⟩

/-- A constraint that carries no decoration may be forgotten. -/
theorem drop (accounts : sk.Accounts (c :: cs)) (plain : c.decoration = none) : sk.Accounts cs := by
  have same : Constraint.marks (c :: cs) = Constraint.marks cs := List.filterMap_cons_none plain
  have marks := accounts.marks
  have decorations := accounts.decorations
  rw [same] at marks decorations
  exact ⟨(List.forall_mem_cons.mp accounts.known).2, (List.nodup_cons.mp accounts.ids).2, marks,
    decorations, accounts.issued⟩

/-- A new constraint carries no decoration yet. -/
theorem cons (accounts : sk.Accounts cs) (known : sk.Knows c) (plain : c.decoration = none)
    (new : ∀ d ∈ cs, d.id ≠ c.id) : sk.Accounts (c :: cs) := by
  have same : Constraint.marks (c :: cs) = Constraint.marks cs := List.filterMap_cons_none plain
  refine ⟨List.forall_mem_cons.mpr ⟨known, accounts.known⟩,
    List.nodup_cons.mpr ⟨fun mem => ?_, accounts.ids⟩, ?_, ?_, accounts.issued⟩
  · obtain ⟨d, hd, eq⟩ := List.mem_map.mp mem
    exact new d hd eq
  · rw [same]
    exact accounts.marks
  · rw [same]
    exact accounts.decorations

/-- A constraint gives up its decoration, which is free then. -/
theorem undecorate (accounts : sk.Accounts (c :: cs)) :
    { sk with decorations := sk.decorations.filter fun d => c.decoration ≠ some d }.Accounts
      ({ c with decoration := none } :: cs) := by
  obtain ⟨first, others⟩ := List.forall_mem_cons.mp accounts.known
  have left : Constraint.marks ({ c with decoration := none } :: cs) = Constraint.marks cs :=
    List.filterMap_cons_none rfl
  have known := List.forall_mem_cons.mpr ⟨first.redress none c.space, others⟩
  refine ⟨fun d hd => (known d hd).of_counts (Nat.le_refl _) (Nat.le_refl _), accounts.ids, ?_,
    fun d => ?_, fun d hd => accounts.issued d (List.mem_filter.mp hd).1⟩
  · rw [left]
    exact accounts.marks.sublist ((List.sublist_cons_self c cs).filterMap _)
  · rw [left, List.mem_filter, accounts.decorations]
    have marks := accounts.marks
    cases own : c.decoration with
    | none =>
      have same : Constraint.marks (c :: cs) = Constraint.marks cs := List.filterMap_cons_none own
      rw [same]
      simp
    | some e =>
      have head : Constraint.marks (c :: cs) = e :: Constraint.marks cs :=
        List.filterMap_cons_some own
      rw [head] at marks ⊢
      -- nobody else carries the decoration, so it may go
      have alone := (List.nodup_cons.mp marks).1
      rw [List.mem_cons]
      constructor
      · rintro ⟨rfl | mem, ne⟩
        · simp at ne
        · exact mem
      · intro mem
        have ne : e ≠ d := fun same => alone (same ▸ mem)
        exact ⟨Or.inr mem, by simpa using ne⟩

/-- A constraint gets a new decoration. -/
theorem decorate (accounts : sk.Accounts (c :: cs)) (plain : c.decoration = none) :
    sk.decorate.2.Accounts ({ c with decoration := some sk.decorate.1 } :: cs) := by
  obtain ⟨first, others⟩ := List.forall_mem_cons.mp accounts.known
  have same : Constraint.marks (c :: cs) = Constraint.marks cs := List.filterMap_cons_none plain
  have head : Constraint.marks ({ c with decoration := some sk.decorate.1 } :: cs) =
      sk.decorate.1 :: Constraint.marks cs := List.filterMap_cons_some rfl
  have marks := accounts.marks
  have decorations := accounts.decorations
  rw [same] at marks decorations
  have mem_decorate : ∀ d, d ∈ sk.decorate.2.decorations ↔ d = sk.decorate.1 ∨ d ∈ sk.decorations :=
    fun d => Ascending.mem_insert
  have count : sk.decorate.2.decorationCount = sk.decorationCount + 1 := rfl
  have number : sk.decorate.1.number = sk.decorationCount + 1 := rfl
  have known := List.forall_mem_cons.mpr ⟨first.redress (some sk.decorate.1) c.space, others⟩
  refine ⟨fun d hd => (known d hd).of_counts (Nat.le_refl _) (Nat.le_refl _), accounts.ids, ?_,
    fun d => ?_, fun d hd => ?_⟩
  · rw [head]
    refine List.nodup_cons.mpr ⟨fun mem => ?_, marks⟩
    have := accounts.issued _ ((decorations _).mpr mem)
    omega
  · rw [head, mem_decorate, decorations, List.mem_cons]
  · rcases (mem_decorate d).mp hd with rfl | old
    · omega
    · have := accounts.issued d old
      omega

end Accounts

end Sketch

end SketchSolver
