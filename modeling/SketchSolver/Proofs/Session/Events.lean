import SketchSolver.Proofs.Session.Deeds
import SketchSolver.Proofs.Session.Upkeep

/-!
# Everything that can happen to a bench

Beside what its caller does, a bench sees parameters given values from outside: a point is
put somewhere else, without the session being told. Neither spoils what is on file, and all
spaces stay regular (`filed_through`, `regular_through`). Being on file does not mention
values at all, and a space is regular by what it hosts.

Events that neither throw spaces away nor take entities off behind the session's back are
`Rooted`. Through them the books of the sketch stay right as well (`kept_through`), which
asks for more: that registrations, places and decorations agree with what is hosted.

The three invariants are proved one beside the other and not as one, because they hold of
different events. Each has a lemma about one event and an induction over a list of them.
`regular_apply` needs the constraints that a move hands over to fit their kinds, and takes
this from the file.

From the file it also follows when a constraint reads two different parameters, which a
solve of all spaces asks for (`varied_through`). Only a constraint all of whose entities
are made of one and the same parameter does not.
-/

namespace SketchSolver

variable {α : Type}

/-- What can happen to a bench. -/
inductive Event (α : Type) where
  | deed (deed : Deed α)
  | assign (h : Handle) (value : α)

/-- Spaces are not thrown away, and entities go only with their constraints. -/
def Event.Rooted : Event α → Prop
  | .deed .reset => False
  | .deed (.takeOff _) => False
  | _ => True

namespace Session

variable {s : Session α}

/-- The session in which a parameter has another value. -/
def assign [Zero α] (s : Session α) (h : Handle) (value : α) : Session α :=
  { s with sketch := { s.sketch with store := s.sketch.store.setValue h value } }

end Session

namespace Bench

variable {b : Bench α}

variable [Zero α] [One α] [Add α] [Sub α] [Mul α] [Div α] [Neg α] [LT α] [LE α] [BEq α]
variable [DecidableLT α] [DecidableLE α] [Elementary α]

/-- The bench after an event. -/
def meet (b : Bench α) : Event α → Bench α
  | .deed deed => b.carryOut deed
  | .assign h value => { b with session := b.session.assign h value }

/-- The bench after some events. -/
def through (events : List (Event α)) (b : Bench α) : Bench α := events.foldl meet b

/-! ## On file -/

/-- An event keeps what is on file. Values of parameters are not on file. -/
theorem Filed.meet (filed : b.Filed) (event : Event α) : (b.meet event).Filed := by
  cases event with
  | deed deed => exact filed.carryOut deed
  | assign h value =>
    exact filed.step (Session.files_of_retains (.of_store rfl)) fun c hc new => absurd hc new

/-- Whatever has happened, the constraints are on file. -/
theorem filed_through : ∀ (events : List (Event α)) {b : Bench α}, b.Filed →
    (through events b).Filed
  | [], _, filed => filed
  | event :: events, _, filed => filed_through events (filed.meet event)

/-- **A hosted constraint reads two different parameters if one of its entities has two**, whatever
has happened. A solve of all spaces asks for this (`Session.satisfied_of_solve_prepared`), and every
entity drawn by values has them. -/
theorem varied_through (name : String) (settings : Settings α) {events : List (Event α)}
    {s : Session α} (reached : (through events (create name settings)).session = s)
    {c : Constraint} (hosted : c ∈ s.constraints) {e : Entity} (he : e ∈ s.sketch.entities)
    (listed : e.id ∈ c.entities) (two : ∃ a ∈ e.shape.params, ∃ b ∈ e.shape.params, a ≠ b) :
    c.Varied := by
  have filed := (filed_through events (filed_create name settings)).session
  rw [reached] at filed
  obtain ⟨sp, mem, hc⟩ := List.mem_flatMap.mp hosted
  have traces := ((filed.each sp mem).hosted c hc).2
  obtain ⟨a, ha, b, hb, ne⟩ := two
  have distinct := filed.families.toDistinct
  exact ⟨a, traces.reads distinct he listed ha, b, traces.reads distinct he listed hb, ne⟩

/-! ## Regular spaces -/

/-- A move keeps all spaces regular, because the constraints that it hands over fit their kinds. -/
theorem regular_apply (filed : b.Filed) (regular : b.session.Regular) (move : Move α) :
    (b.apply move).session.Regular := by
  have fits : ∀ {ids cs rest}, take ids b.held = some (cs, rest) → ∀ c ∈ cs, c.Fits :=
    fun taken c hc => ((filed.of_take taken).1 c hc).fits
  cases move with
  | draw figure => exact regular
  | create kind ids =>
    unfold Bench.apply
    simp only
    split
    next => exact regular
    next => exact regular
  | add index id =>
    unfold Bench.apply
    simp only
    split
    next taken =>
      exact (Session.addToSpace_kept _ index (fits taken _ List.mem_cons_self)).regular regular
    next => exact regular
  | addConstraints ids =>
    unfold Bench.apply
    simp only
    split
    next taken =>
      refine Session.addBatch_regular regular fun p mem => ?_
      obtain ⟨c, hc, rfl⟩ := List.mem_map.mp mem
      exact fits taken c hc
    next => exact regular
  | removeConstraints ids =>
    have removed := Session.removeConstraints_regular regular ids
    unfold Bench.apply
    simp only
    split
    next eq =>
      rw [eq] at removed
      exact removed
    next eq =>
      rw [eq] at removed
      exact removed
  | operate op enclosed =>
    -- an enclosed operation is handed no constraint
    refine Operation.regular_apply regular ?_
    cases op with
    | add index c => exact enclosed.elim
    | addConstraints cs => exact enclosed.elim
    | _ => trivial

/-- An event keeps all spaces regular. Throwing all of them away leaves an empty one. -/
theorem regular_meet (filed : b.Filed) (regular : b.session.Regular) (event : Event α) :
    (b.meet event).session.Regular := by
  cases event with
  | deed deed =>
    cases deed with
    | move move => exact regular_apply filed regular move
    | reset => exact (Session.reset_kept b.session).regular regular
    | takeOff id =>
      show (b.carryOut (.takeOff id)).session.Regular
      unfold carryOut
      simp only
      split
      next => exact regular
      next => exact regular
  | assign h value => exact regular

/-- **All spaces stay regular**, whatever happens. -/
theorem regular_through : ∀ (events : List (Event α)) {b : Bench α}, b.Filed →
    b.session.Regular → (through events b).session.Regular
  | [], _, _, regular => regular
  | event :: events, _, filed, regular =>
    regular_through events (filed.meet event) (regular_meet filed regular event)

/-! ## Right books -/

/-- A rooted event keeps the books right. -/
theorem Kept.meet {event : Event α} (kept : b.Kept) (rooted : event.Rooted) :
    (b.meet event).Kept := by
  cases event with
  | deed deed =>
    cases deed with
    | move move => exact kept.apply move
    | reset => exact rooted.elim
    | takeOff id => exact rooted.elim
  | assign h value => exact ⟨⟨kept.tidy.ledger.of_store rfl, kept.tidy.placed⟩, kept.plain⟩

theorem kept_through : ∀ (events : List (Event α)) {b : Bench α}, b.Kept →
    (∀ event ∈ events, event.Rooted) → (through events b).Kept
  | [], _, kept, _ => kept
  | _ :: events, _, kept, rooted =>
    have rooted := List.forall_mem_cons.mp rooted
    kept_through events (kept.meet rooted.1) rooted.2

end Bench

end SketchSolver
