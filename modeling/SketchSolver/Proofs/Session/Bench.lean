import SketchSolver.Proofs.Session.Custody

/-!
# What a caller can do

A constraint is in one place at a time: a space hosts it, or the caller holds it. The
caller holds what it has created and what it has taken out, and adds a constraint by
giving it away. A `Bench` is a session together with what its caller holds, and a `Move`
is anything that the caller can do, except throwing away all spaces. A constraint of
another sketch is never held, so none is ever added.

A bench starts with an empty sketch. Nothing is lost by this, for what a sketch has from
the start can be drawn first. Drawing takes any shape, on new parameters or on those that
other entities have already.

The invariant is `Kept`: the session is tidy with regard to what the caller holds, and no
held constraint carries a decoration. Each move has its lemma about tidiness elsewhere
(`Tidy.addToSpace`, `Tidy.removeConstraints` and others); here they are put together
(`Kept.apply`), once for the operations in which no constraint passes between the session
and its caller (`Tidy.operate`), and once for those in which one does. A move that fails
is no exception: what it was given is lost, and what it has done stays done.

The main statement `mirrored_run` says that after any moves, failed ones among them, the
sketch mirrors what the spaces host: registrations, places and decorations. It has no
hypotheses. Decorations that nobody carries cannot come up, because the only way to get
one is to create a constraint with it. `regular_run` is what solving all spaces needs to
know of the constraints.

Throwing away all spaces is left out because it keeps registrations on purpose; what
remains true then is the matter of `Deeds`.
-/

namespace SketchSolver

variable {α : Type}

/-- The sketch and the spaces agree about what is hosted. -/
structure Session.Mirrored (s : Session α) : Prop where
  /-- A constraint is registered on an entity just when a space hosts it, and the entity is one of its
  entities or a point of one. -/
  registered : ∀ e c, c ∈ s.sketch.constraintsOf e ↔ ∃ sp ∈ s.spaces, ∃ d ∈ sp.constraints,
    d.id = c ∧ ∃ root ∈ d.entities, e ∈ s.sketch.subtree root
  /-- No constraint is hosted twice. -/
  once : (s.constraints.map (·.id)).Nodup
  /-- Spaces are at the positions of their indices, and a hosted constraint tells its space. -/
  placed : ∀ (i : Nat) (sp : Space α), s.spaces[i]? = some sp →
    sp.index = i ∧ ∀ c ∈ sp.constraints, c.space = some i
  /-- The decorations in use are those that hosted constraints carry. -/
  decorations : ∀ d, d ∈ s.sketch.decorations ↔ ∃ c ∈ s.constraints, c.decoration = some d
  /-- No two hosted constraints carry the same decoration. -/
  marks : (Constraint.marks s.constraints).Nodup

/-- No constraint passes between the session and its caller, and the spaces stay. -/
def Operation.Enclosed : Operation α → Prop
  | .reset => False
  | .create _ _ => False
  | .add _ _ => False
  | .addConstraints _ => False
  | .removeConstraints _ => False
  | _ => True

/-- A session, and the constraints that its caller holds. -/
structure Bench (α : Type) where
  session : Session α
  held : List Constraint

/-- What a caller can do. Drawing need not be followed by a refresh. Constraints that are added are named
by their ids, and must be held. -/
inductive Move (α : Type) where
  | draw (figure : Figure α)
  | create (kind : Kind) (ids : List EntityId)
  | add (index : Nat) (id : ConstraintId)
  | addConstraints (ids : List ConstraintId)
  | removeConstraints (ids : List ConstraintId)
  | operate (op : Operation α) (enclosed : op.Enclosed)

namespace Bench

/-- A session over an empty sketch. -/
def create (name : String) (settings : Settings α) : Bench α :=
  ⟨Session.create { name } settings, []⟩

/-- Takes the constraints with some ids from those that are held, in this order. -/
def take : List ConstraintId → List Constraint → Option (List Constraint × List Constraint)
  | [], held => some ([], held)
  | id :: ids, held =>
    match held.find? fun c => c.id = id with
    | none => none
    | some c => (take ids (held.erase c)).map fun (cs, rest) => (c :: cs, rest)

variable [Zero α] [One α] [Add α] [Sub α] [Mul α] [Div α] [Neg α] [LT α] [LE α] [BEq α]
variable [DecidableLT α] [DecidableLE α] [Elementary α]

/-- The bench after a move. A move with constraints that are not held cannot be made. -/
def apply (b : Bench α) : Move α → Bench α
  | .draw figure => { b with session := { b.session with sketch := b.session.sketch.draw figure } }
  | .create kind ids =>
    match Constraint.create b.session.sketch kind ids with
    | .error _ => b
    | .ok (c, sketch) => ⟨{ b.session with sketch }, c :: b.held⟩
  | .add index id =>
    match take [id] b.held with
    | some ([c], rest) => ⟨(b.session.addToSpace index c).2, rest⟩
    | _ => b
  | .addConstraints ids =>
    match take ids b.held with
    | some (cs, rest) => ⟨(b.session.addConstraints cs).2, rest⟩
    | none => b
  | .removeConstraints ids =>
    match b.session.removeConstraints ids with
    | (.ok removed, session) => ⟨session, removed ++ b.held⟩
    | (.error _, session) => ⟨session, b.held⟩
  | .operate op _ => { b with session := op.apply b.session }

/-- The bench after some moves. -/
def run (moves : List (Move α)) (b : Bench α) : Bench α := moves.foldl apply b

end Bench

/-! ## The invariant -/

namespace Session

variable {s : Session α} {held : List Constraint}

/-- Where what is held carries no decorations, all of them are on what is hosted. -/
theorem Tidy.mirrored (tidy : s.Tidy held) (plain : ∀ c ∈ held, c.decoration = none) :
    s.Mirrored := by
  have none : Constraint.marks held = [] := List.filterMap_eq_nil_iff.mpr plain
  have all : Constraint.marks (s.constraints ++ held) = Constraint.marks s.constraints := by
    unfold Constraint.marks at *
    rw [List.filterMap_append, none, List.append_nil]
  refine ⟨fun e c => ?_, tidy.ids, fun i sp at' => ?_, fun d => ?_, ?_⟩
  · rw [tidy.ledger.registers e c]
    constructor
    · rintro ⟨d, hd, same, covered⟩
      obtain ⟨sp, mem, hd⟩ := List.mem_flatMap.mp hd
      exact ⟨sp, mem, d, hd, same, List.mem_flatMap.mp covered⟩
    · rintro ⟨sp, mem, d, hd, same, covered⟩
      exact ⟨d, List.mem_flatMap.mpr ⟨sp, mem, hd⟩, same, List.mem_flatMap.mpr covered⟩
  · have index : sp.index = i := by
      have both := congrArg (·[i]?) tidy.placed.indices
      obtain ⟨bound, rfl⟩ := List.getElem?_eq_some_iff.mp at'
      simpa [bound] using both
    refine ⟨index, fun c hc => ?_⟩
    rw [← index]
    exact tidy.placed.hosted sp (List.mem_of_getElem? at') c hc
  · rw [tidy.ledger.accounts.decorations, all]
    exact List.mem_filterMap
  · rw [← all]
    exact tidy.ledger.accounts.marks

/-- With nothing drawn and nothing hosted, the books are right. -/
theorem tidy_create (name : String) (settings : Settings α) :
    (Session.create ({ name } : Sketch α) settings).Tidy [] := by
  refine ⟨⟨⟨⟨.nil, ?_⟩, ?_⟩, ⟨?_, .nil, .nil, ?_, ?_⟩, ?_⟩, ⟨?_, rfl, ?_, ?_⟩⟩
  all_goals simp [Session.create, Session.constraints, Space.create, Sketch.Registers,
    Sketch.constraintsOf, Sketch.entity?, Constraint.marks]

variable [Zero α] [One α] [Add α] [Sub α] [Mul α] [Div α] [Neg α] [LT α] [LE α] [BEq α]
variable [DecidableLT α] [DecidableLE α] [Elementary α]

/-- What is held stays held as long as no constraint passes. -/
theorem Tidy.operate (tidy : s.Tidy held) {op : Operation α} (enclosed : op.Enclosed) :
    (op.apply s).Tidy held := by
  cases op with
  | configure settings => exact tidy.withSettings settings
  | addSpace => exact tidy.addSpace
  | reset => exact enclosed.elim
  | clear => exact tidy.clear
  | startTransaction => exact tidy.startTransaction
  | finishTransaction => exact tidy.finishTransaction
  | refresh => exact tidy.refresh
  | draw figure =>
    have drawn : { s with sketch := s.sketch.draw figure }.Tidy held :=
      ⟨tidy.ledger.draw figure, tidy.placed⟩
    exact drawn.refresh
  | create kind ids => exact enclosed.elim
  | add index c => exact enclosed.elim
  | addConstraints cs => exact enclosed.elim
  | constrain kind ids => exact tidy.constrain kind ids
  | constrainDecorated kind ids => exact tidy.constrainDecorated kind ids
  | removeConstraints ids => exact enclosed.elim
  | removeEntities ids => exact tidy.removeEntities ids
  | solve rough => exact tidy.solve rough
  | solveFine => exact tidy.solveFine
  | prepare dragged force => exact tidy.prepare dragged force
  | drag id dx dy => exact tidy.drag id dx dy
  | endDrag => exact tidy.solve false
  | restore records => exact tidy.restore records

end Session

namespace Bench

variable {b : Bench α}

/-- Taking constraints out of a list splits it, up to order. -/
theorem perm_of_take : ∀ {ids : List ConstraintId} {held cs rest : List Constraint},
    take ids held = some (cs, rest) → held.Perm (cs ++ rest)
  | [], held, cs, rest, taken => by
    cases taken
    exact .refl _
  | id :: ids, held, cs, rest, taken => by
    unfold take at taken
    split at taken
    next => simp at taken
    next c found =>
      obtain ⟨⟨cs', rest'⟩, later, eq⟩ := Option.map_eq_some_iff.mp taken
      cases eq
      exact (List.perm_cons_erase (List.mem_of_find?_eq_some found)).trans
        ((perm_of_take later).cons c)

/-- What is held carries no decorations, and otherwise the session is tidy. -/
structure Kept (b : Bench α) : Prop where
  tidy : b.session.Tidy b.held
  plain : ∀ c ∈ b.held, c.decoration = none

/-- Taking from what is held. -/
theorem Kept.lends {ids : List ConstraintId} {cs rest : List Constraint} (kept : b.Kept)
    (taken : take ids b.held = some (cs, rest)) :
    b.session.Lends cs rest ∧ ∀ c ∈ rest, c.decoration = none := by
  have same := perm_of_take taken
  have plain : ∀ c ∈ cs ++ rest, c.decoration = none := fun c hc =>
    kept.plain c (same.mem_iff.mpr hc)
  rw [List.forall_mem_append] at plain
  exact ⟨⟨kept.tidy.perm same.symm, plain.1⟩, plain.2⟩

/-- A new bench has nothing hosted and nothing held. -/
theorem kept_create (name : String) (settings : Settings α) : (create name settings).Kept :=
  ⟨Session.tidy_create name settings, fun _ hc => absurd hc List.not_mem_nil⟩

variable [Zero α] [One α] [Add α] [Sub α] [Mul α] [Div α] [Neg α] [LT α] [LE α] [BEq α]
variable [DecidableLT α] [DecidableLE α] [Elementary α]

/-- **A move keeps the books right**, whether it fails or not. -/
theorem Kept.apply (kept : b.Kept) (move : Move α) : (b.apply move).Kept := by
  cases move with
  | draw figure => exact ⟨⟨kept.tidy.ledger.draw figure, kept.tidy.placed⟩, kept.plain⟩
  | create kind ids =>
    unfold Bench.apply
    simp only
    split
    next => exact kept
    next created =>
      obtain ⟨tidy, plain⟩ := kept.tidy.create created
      exact ⟨tidy, List.forall_mem_cons.mpr ⟨plain, kept.plain⟩⟩
  | add index id =>
    unfold Bench.apply
    simp only
    split
    next taken =>
      obtain ⟨lends, plain⟩ := kept.lends taken
      exact ⟨lends.tidy.addToSpace fun _ => lends.plain _ (List.mem_singleton_self _), plain⟩
    next => exact kept
  | addConstraints ids =>
    unfold Bench.apply
    simp only
    split
    next taken =>
      obtain ⟨lends, plain⟩ := kept.lends taken
      exact ⟨.addConstraints lends, plain⟩
    next => exact kept
  | removeConstraints ids =>
    have yields := kept.tidy.removeConstraints ids
    unfold Bench.apply
    simp only
    generalize b.session.removeConstraints ids = r at yields
    obtain ⟨_ | removed, s⟩ := r
    · exact ⟨yields, kept.plain⟩
    · have lends : s.Lends removed b.held := yields
      exact ⟨lends.tidy, List.forall_mem_append.mpr ⟨lends.plain, kept.plain⟩⟩
  | operate op enclosed => exact ⟨kept.tidy.operate enclosed, kept.plain⟩

/-- Any moves keep the books right, by induction on the moves. -/
theorem kept_run : ∀ (moves : List (Move α)) {b : Bench α}, b.Kept → (run moves b).Kept
  | [], _, kept => kept
  | move :: moves, _, kept => kept_run moves (kept.apply move)

/-- **After any moves the sketch mirrors what the spaces host.** -/
theorem mirrored_run (name : String) (settings : Settings α) (moves : List (Move α)) :
    (run moves (create name settings)).session.Mirrored := by
  have kept := kept_run moves (kept_create name settings)
  exact kept.tidy.mirrored kept.plain

/-- A point is put on a segment, which is to be horizontal, and solving is put off: both constraints are
registered on the ends of the segment, and the first one has a decoration. -/
example :
    let moves : List (Move Float) := [.draw (.segment 0 0 4 3), .draw (.point 1 5),
      .operate .startTransaction trivial,
      .operate (.constrainDecorated .pointOnLine [⟨4⟩, ⟨3⟩]) trivial, .create .horizontal [⟨3⟩],
      .add 0 ⟨2⟩]
    let s := (run moves (create "sketch" Settings.standard)).session
    s.sketch.constraintsOf ⟨1⟩ = [⟨1⟩, ⟨2⟩] ∧ s.sketch.constraintsOf ⟨4⟩ = [⟨1⟩] ∧
      s.sketch.decorations = [⟨1⟩] := by
  decide +kernel

/-- After any moves the constraints that spaces host fit, and all of them take part, as a solve of all
spaces needs it. -/
theorem regular_run (name : String) (settings : Settings α) (moves : List (Move α)) :
    ∀ sp ∈ (run moves (create name settings)).session.spaces, sp.Regular :=
  (kept_run moves (kept_create name settings)).tidy.regular

end Bench

end SketchSolver
